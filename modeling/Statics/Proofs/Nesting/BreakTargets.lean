import Statics.Proofs.Nesting.Deferred

/-!
# Where breaks go, and what leaves a construct

The check of a break looks outward: one without a label goes to the innermost loop or switch around it, one with a
label to the innermost that carries the label. The analysis of what terminates looks inward, from a loop or a switch,
for a break that leaves it. The two meet for breaks that stand in the open, where neither a deferred statement nor the
head of a construct is between, and whose label no construct between carries a second time.
-/

namespace Statics

variable {falls : Bool} {clauses : List Clause}

/-! ## Loops and switches in a body -/

/-- Whether a statement is a loop or a switch. -/
def Stmt.isConstruct : Stmt → Bool
  | .loop .. | .switch .. | .typeSwitch .. => true
  | _ => false

/-- The label that a loop or a switch carries. -/
def Stmt.label? : Stmt → Option Ident
  | .loop _ label .. | .switch _ label .. | .typeSwitch _ label .. => label
  | _ => none

/-- Whether the analysis finds a break that leaves a loop or a switch. -/
def Stmt.isLeft : Stmt → Bool
  | .loop _ label _ _ _ body => Block.breaks (label.map Node.name) true body
  | .switch _ label _ _ clauses | .typeSwitch _ label _ _ clauses =>
    Clause.breaksList (label.map Node.name) true clauses
  | _ => false

mutual

/-- The loops and switches in a statement at some place, each with its own place. -/
def Stmt.constructs (place : Place) : Stmt → List (Place × Stmt)
  | .block body => Block.constructs (.braces :: place) body
  | .branchOn _ init _ body otherwise =>
    Stmt.constructsOption (.head none false :: place) init ++ Block.constructs (.branch :: place) body ++
      Stmt.constructsElse place otherwise
  | .loop token label init test post body =>
    (place, .loop token label init test post body) ::
      (Stmt.constructsOption (.head label true :: place) init ++
        Stmt.constructsOption (.head label true :: place) post ++ Block.constructs (.loop label :: place) body)
  | .switch token label init tag clauses =>
    (place, .switch token label init tag clauses) ::
      (Stmt.constructsOption (.head label false :: place) init ++ Clause.constructs label true place clauses)
  | .typeSwitch token label name tag clauses =>
    (place, .typeSwitch token label name tag clauses) :: Clause.constructs label false place clauses
  | .defer _ s => Stmt.constructs (.deferred :: place) s
  | _ => []

@[inherit_doc Stmt.constructs]
def Stmt.constructsOption (place : Place) : Option Stmt → List (Place × Stmt)
  | none => []
  | some s => Stmt.constructs place s

/-- The loops and switches in what follows `else`. -/
def Stmt.constructsElse (place : Place) : Option Stmt → List (Place × Stmt)
  | none => []
  | some s => Stmt.constructs ((if Check.isElse s then .branch else .stray) :: place) s

/-- The loops and switches in a list of statements. -/
def Stmt.constructsList (place : Place) : List Stmt → List (Place × Stmt)
  | [] => []
  | s :: rest => Stmt.constructs (.listed (rest.all Stmt.isEmpty) :: place) s ++ Stmt.constructsList place rest

/-- The loops and switches in a block. -/
def Block.constructs (place : Place) : Block → List (Place × Stmt)
  | ⟨_, _, _, stmts⟩ => Stmt.constructsList place stmts

/-- The loops and switches in the clauses of a switch. -/
def Clause.constructs (label : Option Ident) (falls : Bool) (place : Place) : List Clause → List (Place × Stmt)
  | [] => []
  | ⟨_, _, stmts⟩ :: rest =>
    Stmt.constructsList (.clause label (falls && !rest.isEmpty) :: place) stmts ++
      Clause.constructs label falls place rest

end

/-- The loops and switches in the body of a procedure. -/
def Body.constructs (b : Body) : List (Place × Stmt) := b.block.constructs []

/-- What is listed are loops and switches. Their control flow is control flow of the statement that they stand in. -/
theorem Control.of_mem_constructs :
    (∀ place (s : Stmt), ∀ p ∈ s.constructs place, p.2.isConstruct ∧ p.2.controls p.1 ⊆ s.controls place) ∧
    (∀ label falls place clauses, ∀ p ∈ Clause.constructs label falls place clauses,
      p.2.isConstruct ∧ p.2.controls p.1 ⊆ Clause.controls label falls place clauses) ∧
    (∀ place stmts, ∀ p ∈ Stmt.constructsList place stmts,
      p.2.isConstruct ∧ p.2.controls p.1 ⊆ Stmt.controlsList place stmts) ∧
    (∀ place s, ∀ p ∈ Stmt.constructsElse place s, p.2.isConstruct ∧ p.2.controls p.1 ⊆ Stmt.controlsElse place s) ∧
    (∀ place s, ∀ p ∈ Stmt.constructsOption place s, p.2.isConstruct ∧ p.2.controls p.1 ⊆ Stmt.controlsOption place s) ∧
    (∀ place (b : Block), ∀ p ∈ b.constructs place, p.2.isConstruct ∧ p.2.controls p.1 ⊆ b.controls place) := by
  apply Stmt.constructs.mutual_induct <;>
    grind [Stmt.constructs, Stmt.constructsOption, Stmt.constructsElse, Stmt.constructsList, Block.constructs,
      Clause.constructs, Stmt.controls, Stmt.controlsOption, Stmt.controlsElse, Stmt.controlsList, Block.controls,
      Clause.controls, Stmt.isConstruct]

theorem Block.of_mem_constructs {p place : Place} {c : Stmt} {b : Block} (h : (p, c) ∈ b.constructs place) :
    c.isConstruct ∧ c.controls p ⊆ b.controls place := Control.of_mem_constructs.2.2.2.2.2 _ _ _ h

/-! ## What the analysis counts -/

namespace Jump

/-- Whether a jump stands in the open below a place: in no deferred statement there, and in no head of a construct. -/
def IsOpenBelow (j : Jump) (place : Place) : Prop :=
  ∃ inner, j.place = inner ++ place ∧ ∀ f ∈ inner, f.isSealed = false

/-- Whether a jump goes to the construct that stands at a place: none inside takes it, and that one does. -/
def GoesTo (j : Jump) (place : Place) : Prop :=
  ∃ inner f, j.place = inner ++ f :: place ∧ j.isTakenBy f ∧ ∀ g ∈ inner, j.isTakenBy g = false

/-- Whether a jump has the label of a loop or a switch. -/
def Names (j : Jump) (c : Stmt) : Prop := ∃ l, j.label = some l ∧ c.label?.map Node.name = some l.name

/-- A break in the open below a place that leaves a construct with the label `label` there: by its label, or without one
if nothing between takes it. -/
def CountsFor (label : Option String) (implicit : Bool) (place : Place) (j : Jump) : Prop :=
  j.kind = .breaks ∧ ∃ inner, j.place = inner ++ place ∧ (∀ f ∈ inner, f.isSealed = false) ∧
    match j.label with
    | none => implicit = true ∧ ∀ f ∈ inner, f.takesBreak = false
    | some l => label = some l.name

variable {label : Option String} {implicit : Bool} {place : Place} {f : Frame} {j : Jump}

/-- Without a label, nothing counts inside a construct that takes breaks. -/
theorem not_countsFor_none (place : Place) (j : Jump) : ¬ CountsFor none false place j := by
  rintro ⟨-, inner, -, -, hcount⟩
  cases hlabel : j.label <;> simp [hlabel] at hcount

/-- What counts stays what counts one frame further in, but for breaks without a label that this frame takes. -/
theorem countsFor_cons (hf : f.isSealed = false) (hj : f :: place <:+ j.place) :
    CountsFor label implicit place j ↔ CountsFor label (implicit && !f.takesBreak) (f :: place) j := by
  obtain ⟨inner, hinner⟩ := hj
  have hsplit (inner' : Place) : j.place = inner' ++ place ↔ inner' = inner ++ [f] := by
    rw [← hinner, List.append_cons, List.append_left_inj, eq_comm]
  have hsplit' (inner' : Place) : j.place = inner' ++ f :: place ↔ inner' = inner := by
    rw [← hinner, List.append_left_inj, eq_comm]
  simp only [CountsFor, hsplit, hsplit', exists_eq_left, List.forall_mem_append, List.forall_mem_singleton, hf,
    and_true]
  cases j.label with
  | none => simp only [Bool.and_eq_true, Bool.not_eq_true', and_assoc, and_comm, and_left_comm]
  | some l => rfl

/-- Nothing counts from inside a deferred statement or a head. -/
theorem not_countsFor_of_isSealed (hf : f.isSealed) (hj : f :: place <:+ j.place) :
    ¬ CountsFor label implicit place j := by
  rintro ⟨-, inner, hplace, hopen, -⟩
  obtain ⟨inner', hinner⟩ := hj
  rw [← hinner, List.append_cons, List.append_left_inj] at hplace
  have hsealed := hopen f (hplace ▸ List.mem_append_right _ (List.mem_singleton_self f))
  simp [hf] at hsealed

end Jump

/-- Some jump among pieces of control flow counts. -/
def Control.AnyCounts (label : Option String) (implicit : Bool) (place : Place) (controls : List Control) : Prop :=
  ∃ j, .jump j ∈ controls ∧ j.CountsFor label implicit place

namespace Control

variable {label : Option String} {implicit : Bool} {place : Place} {f : Frame} {cs ds : List Control}

@[simp]
theorem anyCounts_nil : AnyCounts label implicit place [] ↔ False := by simp [AnyCounts]

@[simp]
theorem anyCounts_append :
    AnyCounts label implicit place (cs ++ ds) ↔ AnyCounts label implicit place cs ∨
      AnyCounts label implicit place ds := by
  simp [AnyCounts, or_and_right, exists_or]

@[simp]
theorem anyCounts_wrongElse {p : Place} {token : Token} :
    AnyCounts label implicit place (.wrongElse p token :: cs) ↔ AnyCounts label implicit place cs := by
  simp [AnyCounts]

/-- One frame further in. -/
theorem anyCounts_cons (hf : f.isSealed = false) (hcs : ∀ c ∈ cs, f :: place <:+ c.place) :
    AnyCounts label implicit place cs ↔ AnyCounts label (implicit && !f.takesBreak) (f :: place) cs :=
  exists_congr fun _ => and_congr_right fun hj => Jump.countsFor_cons hf (hcs _ hj)

theorem not_anyCounts_of_isSealed (hf : f.isSealed) (hcs : ∀ c ∈ cs, f :: place <:+ c.place) :
    ¬ AnyCounts label implicit place cs :=
  fun ⟨_, hj, hcounts⟩ => Jump.not_countsFor_of_isSealed hf (hcs _ hj) hcounts

/-- Inside a construct that takes breaks, only those with a label count. -/
theorem isSome_of_anyCounts (h : AnyCounts label false place cs) : label.isSome := by
  obtain ⟨j, -, hcounts⟩ := h
  cases label with
  | none => exact absurd hcounts (Jump.not_countsFor_none place j)
  | some _ => rfl

end Control

/-! ## The search for breaks -/

/-- What is in the clauses of a switch stands in one of them. -/
theorem Clause.frame_of_mem_controls {c : Control} {label : Option Ident}
    (h : c ∈ Clause.controls label falls place clauses) : ∃ mayFall, .clause label mayFall :: place <:+ c.place := by
  induction clauses with
  | nil => simp [Clause.controls] at h
  | cons clause rest ih =>
    obtain ⟨_, _, stmts⟩ := clause
    rw [Clause.controls, List.mem_append] at h
    obtain h | h := h
    · exact ⟨_, Stmt.suffix_of_mem_controlsList h⟩
    · exact ih h

/-- Some jump in the clauses of a switch counts there. -/
def Clause.AnyCounts (label : Option String) (implicit : Bool) (name : Option Ident) (place : Place)
    (controls : List Control) : Prop :=
  ∃ mayFall, Control.AnyCounts label implicit (.clause name mayFall :: place) controls

/-- What counts in the clauses of a switch, seen from outside. -/
theorem Clause.anyCounts_iff {label : Option String} {implicit : Bool} {name : Option Ident} :
    Control.AnyCounts label implicit place (Clause.controls name falls place clauses) ↔
      Clause.AnyCounts label false name place (Clause.controls name falls place clauses) := by
  constructor
  · rintro ⟨j, hj, hcounts⟩
    obtain ⟨mayFall, hsuffix⟩ := Clause.frame_of_mem_controls hj
    rw [Jump.countsFor_cons rfl hsuffix] at hcounts
    exact ⟨mayFall, j, hj, by simpa [Frame.takesBreak] using hcounts⟩
  · rintro ⟨mayFall, j, hj, hcounts⟩
    obtain ⟨inner, hplace, -⟩ := hcounts.2
    refine ⟨j, hj, (Jump.countsFor_cons rfl ⟨inner, hplace.symm⟩).mpr ?_⟩
    simpa [Frame.takesBreak] using hcounts

mutual

/-- The analysis finds a break in a statement exactly if some jump in it counts. -/
theorem Stmt.breaks_iff (label : Option String) (implicit : Bool) (place : Place) :
    ∀ s : Stmt, s.breaks label implicit = true ↔ Control.AnyCounts label implicit place (s.controls place)
  | .jump token kind target => by
    rw [Stmt.controls]
    cases kind with
    | breaks => cases target <;> simp [Stmt.breaks, breakLeaves, Control.AnyCounts, Jump.CountsFor]
    | continues => simp [Stmt.breaks, Control.AnyCounts, Jump.CountsFor]
    | fallsThrough => simp [Stmt.breaks, Control.AnyCounts, Jump.CountsFor]
  | .block body => by
    rw [Stmt.breaks, Stmt.controls, Control.anyCounts_cons rfl fun _ => Block.suffix_of_mem_controls,
      Block.breaks_iff label implicit (.braces :: place)]
    simp [Frame.takesBreak]
  | .branchOn _ init _ body otherwise => by
    rw [Stmt.breaks, Stmt.controls, Bool.or_eq_true, Control.anyCounts_append, Control.anyCounts_append,
      or_iff_right (Control.not_anyCounts_of_isSealed rfl fun _ => Stmt.suffix_of_mem_controlsOption),
      Control.anyCounts_cons rfl fun _ => Block.suffix_of_mem_controls,
      Block.breaks_iff label implicit (.branch :: place), Stmt.breaks_iff_else label implicit place otherwise]
    simp [Frame.takesBreak]
  | .loop _ name init _ post body => by
    rw [Stmt.breaks, Stmt.controls, Control.anyCounts_append, Control.anyCounts_append, or_assoc,
      or_iff_right (Control.not_anyCounts_of_isSealed rfl fun _ => Stmt.suffix_of_mem_controlsOption),
      or_iff_right (Control.not_anyCounts_of_isSealed rfl fun _ => Stmt.suffix_of_mem_controlsOption),
      Control.anyCounts_cons rfl fun _ => Block.suffix_of_mem_controls, Bool.and_eq_true,
      Block.breaks_iff label false (.loop name :: place)]
    simp only [Frame.takesBreak, Bool.not_true, Bool.and_false]
    exact and_iff_right_of_imp Control.isSome_of_anyCounts
  | .switch _ name init _ clauses => by
    rw [Stmt.breaks, Stmt.controls, Control.anyCounts_append,
      or_iff_right (Control.not_anyCounts_of_isSealed rfl fun _ => Stmt.suffix_of_mem_controlsOption),
      Bool.and_eq_true, Clause.anyCounts_iff, Clause.breaks_iff label false name true place clauses]
    exact and_iff_right_of_imp fun ⟨_, h⟩ => Control.isSome_of_anyCounts h
  | .typeSwitch _ name _ _ clauses => by
    rw [Stmt.breaks, Stmt.controls, Bool.and_eq_true, Clause.anyCounts_iff,
      Clause.breaks_iff label false name false place clauses]
    exact and_iff_right_of_imp fun ⟨_, h⟩ => Control.isSome_of_anyCounts h
  | .defer _ s => by
    rw [Stmt.controls, iff_false_right (Control.not_anyCounts_of_isSealed rfl fun _ => Stmt.suffix_of_mem_controls)]
    simp [Stmt.breaks]
  | .returns .. => by simp [Stmt.breaks, Stmt.controls, Control.AnyCounts]
  | .empty _ | .bad _ | .expr _ | .step .. | .assign .. | .use .. | .decl _ => by simp [Stmt.breaks, Stmt.controls]

@[inherit_doc Stmt.breaks_iff]
theorem Stmt.breaks_iff_else (label : Option String) (implicit : Bool) (place : Place) :
    ∀ s : Option Stmt, Stmt.breaksOption label implicit s = true ↔
      Control.AnyCounts label implicit place (Stmt.controlsElse place s)
  | none => by simp [Stmt.breaksOption, Stmt.controlsElse]
  | some s => by
    rw [Stmt.breaksOption, Stmt.controlsElse]
    split
    · rw [Control.anyCounts_cons rfl fun _ => Stmt.suffix_of_mem_controls,
        Stmt.breaks_iff label implicit (.branch :: place)]
      simp [Frame.takesBreak]
    · rw [Control.anyCounts_wrongElse, Control.anyCounts_cons rfl fun _ => Stmt.suffix_of_mem_controls,
        Stmt.breaks_iff label implicit (.stray :: place)]
      simp [Frame.takesBreak]

@[inherit_doc Stmt.breaks_iff]
theorem Stmt.breaks_iff_list (label : Option String) (implicit : Bool) (place : Place) :
    ∀ stmts : List Stmt, Stmt.breaksList label implicit stmts = true ↔
      Control.AnyCounts label implicit place (Stmt.controlsList place stmts)
  | [] => by simp [Stmt.breaksList, Stmt.controlsList]
  | s :: rest => by
    rw [Stmt.breaksList, Stmt.controlsList, Bool.or_eq_true, Control.anyCounts_append,
      Stmt.breaks_iff_list label implicit place rest,
      Stmt.breaks_iff label implicit (.listed (rest.all Stmt.isEmpty) :: place)]
    refine or_congr_left ?_
    rw [Control.anyCounts_cons rfl fun _ => Stmt.suffix_of_mem_controls]
    simp [Frame.takesBreak]

@[inherit_doc Stmt.breaks_iff]
theorem Block.breaks_iff (label : Option String) (implicit : Bool) (place : Place) :
    ∀ b : Block, b.breaks label implicit = true ↔ Control.AnyCounts label implicit place (b.controls place)
  | ⟨_, _, _, stmts⟩ => by
    rw [Block.breaks, Block.controls]
    exact Stmt.breaks_iff_list label implicit place stmts

@[inherit_doc Stmt.breaks_iff]
theorem Clause.breaks_iff (label : Option String) (implicit : Bool) (name : Option Ident) (falls : Bool)
    (place : Place) : ∀ clauses : List Clause, Clause.breaksList label implicit clauses = true ↔
      Clause.AnyCounts label implicit name place (Clause.controls name falls place clauses)
  | [] => by simp [Clause.breaksList, Clause.controls, Clause.AnyCounts]
  | ⟨_, _, stmts⟩ :: rest => by
    rw [Clause.breaksList, Clause.controls, Bool.or_eq_true,
      Clause.breaks_iff label implicit name falls place rest,
      Stmt.breaks_iff_list label implicit (.clause name (falls && !rest.isEmpty) :: place)]
    simp only [Clause.AnyCounts, Control.anyCounts_append, exists_or]
    refine or_congr_left ⟨fun h => ⟨_, h⟩, ?_⟩
    -- A jump of the clause counts in no other frame than that of the clause.
    rintro ⟨mayFall, j, hj, hcounts⟩
    obtain ⟨inner, hplace, -⟩ := hcounts.2
    obtain ⟨inner', hplace'⟩ := Stmt.suffix_of_mem_controlsList hj
    have hframe := (List.append_inj' (hplace'.trans hplace) rfl).2
    exact ⟨j, hj, hframe ▸ hcounts⟩

end

/-! ## Breaks that leave a construct -/

theorem Label.map_name (label : Option Ident) (isLoop : Bool) :
    (label.map fun l => (⟨l.name, isLoop⟩ : Label)).map Label.name = label.map Node.name := by
  simp [Function.comp_def]

/-- What is in a loop or a switch stands in a part of it, which carries its label and takes breaks or is a head. -/
theorem Stmt.frame_of_mem_controls {p : Place} {c : Stmt} (hc : c.isConstruct) {x : Control} (hx : x ∈ c.controls p) :
    ∃ f, f :: p <:+ x.place ∧ f.label?.map Label.name = c.label?.map Node.name ∧ f.takesBreak = !f.isSealed := by
  cases c with
  | loop token label init test post body =>
    rw [Stmt.controls, List.mem_append, List.mem_append, or_assoc] at hx
    obtain hx | hx | hx := hx
    · exact ⟨.head label true, Stmt.suffix_of_mem_controlsOption hx, Label.map_name _ _, rfl⟩
    · exact ⟨.head label true, Stmt.suffix_of_mem_controlsOption hx, Label.map_name _ _, rfl⟩
    · exact ⟨.loop label, Block.suffix_of_mem_controls hx, Label.map_name _ _, rfl⟩
  | switch token label init tag clauses =>
    rw [Stmt.controls, List.mem_append] at hx
    obtain hx | hx := hx
    · exact ⟨.head label false, Stmt.suffix_of_mem_controlsOption hx, Label.map_name _ _, rfl⟩
    · obtain ⟨mayFall, hsuffix⟩ := Clause.frame_of_mem_controls hx
      exact ⟨.clause label mayFall, hsuffix, Label.map_name _ _, rfl⟩
  | typeSwitch token label name tag clauses =>
    rw [Stmt.controls] at hx
    obtain ⟨mayFall, hsuffix⟩ := Clause.frame_of_mem_controls hx
    exact ⟨.clause label mayFall, hsuffix, Label.map_name _ _, rfl⟩
  | _ => simp [Stmt.isConstruct] at hc

namespace Jump

/-- Whether a break in a construct at a place stands in the open there, and goes to the construct or has its label. -/
def LeavesOpenly (j : Jump) (p : Place) (c : Stmt) : Prop :=
  j.kind = .breaks ∧ j.IsOpenBelow p ∧ (j.GoesTo p ∨ j.Names c)

variable {j : Jump} {p : Place} {c : Stmt} {f : Frame}

/-- The same, read off the part of the construct that the break stands in. -/
theorem leavesOpenly_iff (hf : f :: p <:+ j.place) (hlabel : f.label?.map Label.name = c.label?.map Node.name)
    (htakes : f.takesBreak = !f.isSealed) :
    j.LeavesOpenly p c ↔ f.takesBreak ∧ j.CountsFor (c.label?.map Node.name) true (f :: p) := by
  obtain ⟨inner, hinner⟩ := hf
  have hopen : j.IsOpenBelow p ↔ f.takesBreak ∧ ∀ g ∈ inner, g.isSealed = false := by
    simp only [IsOpenBelow, ← hinner, List.append_cons inner f p, List.append_left_inj, exists_eq_left', htakes,
      List.forall_mem_append, List.forall_mem_singleton, Bool.not_eq_true', and_comm]
  have hgoes : j.GoesTo p ↔ j.isTakenBy f ∧ ∀ g ∈ inner, j.isTakenBy g = false := by
    refine ⟨fun ⟨inner', f', heq, htaken⟩ => ?_, fun htaken => ⟨inner, f, hinner.symm, htaken⟩⟩
    obtain ⟨rfl, hcons⟩ := List.append_inj' (hinner.trans heq) rfl
    cases hcons
    exact htaken
  have hcounts : j.CountsFor (c.label?.map Node.name) true (f :: p) ↔ j.kind = .breaks ∧
      (∀ g ∈ inner, g.isSealed = false) ∧ match j.label with
        | none => true = true ∧ ∀ g ∈ inner, g.takesBreak = false
        | some l => c.label?.map Node.name = some l.name := by
    simp only [CountsFor, ← hinner, List.append_left_inj, exists_eq_left']
  rw [LeavesOpenly, hopen, hgoes, hcounts]
  refine ⟨fun ⟨hkind, ⟨hbreak, hsealed⟩, hwhere⟩ => ⟨hbreak, hkind, hsealed, ?_⟩,
    fun ⟨hbreak, hkind, hsealed, hwhere⟩ => ⟨hkind, ⟨hbreak, hsealed⟩, ?_⟩⟩
  · cases hj : j.label with
    | none =>
      obtain ⟨-, hinner⟩ | ⟨l, hl, -⟩ := hwhere
      · exact ⟨rfl, by simpa [isTakenBy, hj, hkind] using hinner⟩
      · simp [hj] at hl
    | some l =>
      obtain ⟨htaken, -⟩ | ⟨l', hl, hname⟩ := hwhere
      · rw [← hlabel]
        simpa [isTakenBy, hj, Option.any_eq_true] using htaken
      · rw [hj] at hl
        cases hl
        exact hname
  · cases hj : j.label with
    | none =>
      rw [hj] at hwhere
      exact .inl (by simpa [isTakenBy, hj, hkind] using ⟨hbreak, hwhere.2⟩)
    | some l =>
      rw [hj] at hwhere
      exact .inr ⟨l, hj, hwhere⟩

/-- A legal break without a label stands in the open below the construct that it goes to. -/
theorem isOpenBelow_of_isLegal (hlegal : j.isLegal) (hkind : j.kind = .breaks) (hlabel : j.label = none)
    (hgoes : j.GoesTo p) : j.IsOpenBelow p := by
  obtain ⟨inner, f, hplace, htaken, hinner⟩ := hgoes
  refine ⟨inner ++ [f], by rw [hplace, List.append_cons], ?_⟩
  have hallows : (inner ++ f :: p).allows Frame.takesBreak := by simpa [isLegal, hkind, hlabel, hplace] using hlegal
  simp only [isTakenBy, hlabel, hkind] at htaken hinner
  clear hplace
  induction inner with
  | nil =>
    cases f <;> simp_all [Frame.takesBreak, Frame.isSealed]
  | cons g rest ih =>
    rw [List.forall_mem_cons] at hinner
    rw [List.cons_append, Place.allows_cons, hinner.1, Bool.false_or] at hallows
    split at hallows
    case isTrue => simp at hallows
    case isFalse hg =>
      rw [List.cons_append, List.forall_mem_cons]
      exact ⟨by simpa using hg, ih hallows hinner.2⟩

end Jump

/-- Some break among pieces of control flow leaves a construct openly. -/
def Control.AnyLeaves (p : Place) (c : Stmt) (controls : List Control) : Prop :=
  ∃ j, .jump j ∈ controls ∧ j.LeavesOpenly p c

namespace Control

variable {p : Place} {c : Stmt} {cs ds : List Control}

theorem anyLeaves_append : AnyLeaves p c (cs ++ ds) ↔ AnyLeaves p c cs ∨ AnyLeaves p c ds := by
  simp [AnyLeaves, or_and_right, exists_or]

/-- No break in the head of a construct leaves it openly. -/
theorem not_anyLeaves_head {label : Option Ident} {isLoop : Bool}
    (hcs : ∀ x ∈ cs, .head label isLoop :: p <:+ x.place) : ¬ AnyLeaves p c cs := by
  rintro ⟨j, hj, -, ⟨inner, hplace, hopen⟩, -⟩
  obtain ⟨inner', hinner⟩ := hcs _ hj
  have hplace : inner' ++ .head label isLoop :: p = inner ++ p := hinner.trans hplace
  rw [List.append_cons, List.append_left_inj] at hplace
  have hsealed := hopen (.head label isLoop) (by simp [← hplace])
  cases hsealed

/-- The breaks that leave a loop openly are those that count in its body. -/
theorem anyLeaves_loop {label : Option Ident} (hlabel : c.label? = label)
    (hcs : ∀ x ∈ cs, .loop label :: p <:+ x.place) : AnyLeaves p c cs ↔
    AnyCounts (label.map Node.name) true (.loop label :: p) cs := by
  refine exists_congr fun j => and_congr_right fun hj => ?_
  rw [Jump.leavesOpenly_iff (hcs _ hj) (hlabel ▸ Label.map_name _ _) rfl, hlabel]
  exact and_iff_right rfl

/-- The breaks that leave a switch openly are those that count in its clauses. -/
theorem anyLeaves_clauses {label : Option Ident} (hlabel : c.label? = label) :
    AnyLeaves p c (Clause.controls label falls p clauses) ↔
      Clause.AnyCounts (label.map Node.name) true label p (Clause.controls label falls p clauses) := by
  have hiff {j : Jump} {mayFall : Bool} (hframe : .clause label mayFall :: p <:+ j.place) :
      j.LeavesOpenly p c ↔ j.CountsFor (label.map Node.name) true (.clause label mayFall :: p) := by
    rw [Jump.leavesOpenly_iff hframe (hlabel ▸ Label.map_name _ _) rfl, hlabel]
    exact and_iff_right rfl
  constructor
  · rintro ⟨j, hj, hleaves⟩
    obtain ⟨mayFall, hframe⟩ := Clause.frame_of_mem_controls hj
    exact ⟨mayFall, j, hj, (hiff hframe).mp hleaves⟩
  · rintro ⟨mayFall, j, hj, hcounts⟩
    obtain ⟨inner, hplace, -⟩ := hcounts.2
    exact ⟨j, hj, (hiff ⟨inner, hplace.symm⟩).mpr hcounts⟩

end Control

/-- The analysis finds a break that leaves a construct exactly if some break in the construct leaves it openly. -/
theorem Stmt.isLeft_iff {c : Stmt} (hc : c.isConstruct) (p : Place) :
    c.isLeft = true ↔ Control.AnyLeaves p c (c.controls p) := by
  cases c with
  | loop token label init test post body =>
    rw [Stmt.isLeft, Stmt.controls, Control.anyLeaves_append, Control.anyLeaves_append, or_assoc,
      or_iff_right (Control.not_anyLeaves_head fun _ => Stmt.suffix_of_mem_controlsOption),
      or_iff_right (Control.not_anyLeaves_head fun _ => Stmt.suffix_of_mem_controlsOption)]
    have hlabel : (Stmt.loop token label init test post body).label? = label := rfl
    rw [Control.anyLeaves_loop hlabel fun _ => Block.suffix_of_mem_controls]
    exact Block.breaks_iff _ true _ body
  | switch token label init tag clauses =>
    rw [Stmt.isLeft, Stmt.controls, Control.anyLeaves_append,
      or_iff_right (Control.not_anyLeaves_head fun _ => Stmt.suffix_of_mem_controlsOption)]
    have hlabel : (Stmt.switch token label init tag clauses).label? = label := rfl
    rw [Control.anyLeaves_clauses hlabel]
    exact Clause.breaks_iff _ true label true p clauses
  | typeSwitch token label name tag clauses =>
    have hlabel : (Stmt.typeSwitch token label name tag clauses).label? = label := rfl
    rw [Stmt.isLeft, Stmt.controls, Control.anyLeaves_clauses hlabel]
    exact Clause.breaks_iff _ true label false p clauses
  | _ => simp [Stmt.isConstruct] at hc

/-! ## Bodies without a report -/

/-- All jumps of a body without a report of illegal control flow are legal. -/
theorem Body.isLegal_of_mem_controls {config : Config} {b : Body} {s t : Pass} (hrun : Check.body config b s = .ok () t)
    (hflow : s.flagged .illegalControlFlow t = []) {j : Jump} (hj : .jump j ∈ b.controls) : j.isLegal := by
  rw [(Check.flow_body config b).completes s () t hrun] at hflow
  refine Bool.not_eq_false _ |>.mp fun hillegal => ?_
  exact Body.reports_ne_nil hj hillegal hflow

/-- In a body that was checked without a report of illegal control flow, the analysis finds a break that leaves a loop
or a switch exactly if some break inside stands in the open below it, and goes to it or has its label. So the analysis
agrees with where breaks go, if every break inside with the label of the construct goes to it and stands in the
open. -/
theorem isLeft_iff_open_break {config : Config} {b : Body} {s t : Pass} (hrun : Check.body config b s = .ok () t)
    (hflow : s.flagged .illegalControlFlow t = []) {p : Place} {c : Stmt} (hc : (p, c) ∈ b.constructs) :
    (c.isLeft = true ↔
      ∃ j, .jump j ∈ c.controls p ∧ j.kind = .breaks ∧ j.IsOpenBelow p ∧ (j.GoesTo p ∨ j.Names c)) ∧
    ((∀ j, .jump j ∈ c.controls p → j.kind = .breaks → j.Names c → j.GoesTo p ∧ j.IsOpenBelow p) →
      (c.isLeft = true ↔ ∃ j, .jump j ∈ c.controls p ∧ j.kind = .breaks ∧ j.GoesTo p)) := by
  obtain ⟨hconstruct, hsub⟩ := Block.of_mem_constructs hc
  have hleft := Stmt.isLeft_iff hconstruct p
  refine ⟨hleft, fun hnamed => hleft.trans ⟨?_, ?_⟩⟩
  · rintro ⟨j, hj, hkind, -, hgoes | hnames⟩
    · exact ⟨j, hj, hkind, hgoes⟩
    · exact ⟨j, hj, hkind, (hnamed j hj hkind hnames).1⟩
  · rintro ⟨j, hj, hkind, hgoes⟩
    refine ⟨j, hj, hkind, ?_, .inl hgoes⟩
    cases hlabel : j.label with
    | none => exact Jump.isOpenBelow_of_isLegal (Body.isLegal_of_mem_controls hrun hflow (hsub hj)) hkind hlabel hgoes
    | some l =>
      -- A break that goes to the construct by a label has the construct's own.
      obtain ⟨inner, f, hplace, htaken, -⟩ := hgoes
      obtain ⟨g, ⟨inner', hsuffix⟩, hname, -⟩ := Stmt.frame_of_mem_controls hconstruct hj
      obtain ⟨-, hcons⟩ := List.append_inj' (hsuffix.trans hplace) rfl
      cases hcons
      refine (hnamed j hj hkind ⟨l, hlabel, ?_⟩).2
      rw [← hname]
      simpa [Jump.isTakenBy, hlabel, Option.any_eq_true] using htaken

/-! Loops with a label, and breaks with that label in them. -/

namespace LabelledBreak

open DeferredBreak (token loopLabel)

/-- A break with the label `l`. -/
def exit : Stmt := .jump (token "break") .breaks (some loopLabel)

/-- A loop without a condition. -/
def loop (label : Option Ident) (stmts : List Stmt) : Stmt :=
  .loop ⟨2, token "for"⟩ label none none none ⟨4, token "\x7b", token "\x7d", stmts⟩

/-- A loop `for l` around some statements. -/
def outer (stmts : List Stmt) : Stmt := loop (some loopLabel) stmts

/-- Where this loop stands in a body with nothing else. -/
def top : Place := [.listed true]

/-- A body with this loop alone. -/
def body (stmts : List Stmt) : Body :=
  ⟨⟨0, 0⟩, ⟨1, 0⟩, ⟨1, 0⟩, ⟨1, token "\x7b", token "\x7d", [outer stmts]⟩⟩

/-- A loop without a label around a break. -/
def nested : List Stmt := [loop none [exit]]

/-- A loop with the same label around a break. -/
def shadowed : List Stmt := [outer [exit]]

/-- A break in front of a condition. -/
def headed : List Stmt :=
  [.branchOn ⟨5, token "if"⟩ (some exit) (.name ⟨6, token "true"⟩) ⟨7, token "\x7b", token "\x7d", []⟩ none]

/-- The break inside of some frames in the loop. -/
def inside (inner : Place) : Jump := ⟨inner ++ .loop (some loopLabel) :: top, token "break", .breaks, some loopLabel⟩

/-- One file with a procedure that has such a body. -/
def files (stmts : List Stmt) : List File :=
  [⟨"m", [.decl (.proc ⟨token "proc", ⟨8, token "f"⟩, ⟨⟨9, token "proc"⟩, [], []⟩, some (body stmts).block,
    ⟨false, false, false⟩, none, none⟩)]⟩]

theorem mem_constructs (stmts : List Stmt) : (top, outer stmts) ∈ (body stmts).constructs := by
  simp [body, Body.constructs, Block.constructs, Stmt.constructsList, outer, loop, Stmt.constructs, top]

theorem controls_nested : (outer nested).controls top = [.jump (inside [.listed true, .loop none, .listed true])] := by
  decide +kernel

end LabelledBreak

open LabelledBreak DeferredBreak in
/-- A break leaves the outer of two loops by its label. -/
theorem isLeft_iff_open_break_nested :
    ∃ t, Check.body .standard (body nested) start = .ok () t ∧ start.flagged .illegalControlFlow t = [] ∧
      (top, outer nested) ∈ (body nested).constructs ∧ (outer nested).isLeft = true ∧
      ∃ j, .jump j ∈ (outer nested).controls top ∧ j.kind = .breaks ∧ j.GoesTo top := by
  have hrun := Check.eq_ok_of_outcome (x := Check.body .standard (body nested)) (s := start) (by decide +kernel)
  have hflow := (Check.flow_body .standard (body nested)).completes _ _ _ hrun
  have hreports : Control.reports (body nested).controls = [] := by decide +kernel
  have hgoes : (inside [.listed true, .loop none, .listed true]).GoesTo top :=
    ⟨_, _, rfl, by decide +kernel, by decide +kernel⟩
  have hopen : (inside [.listed true, .loop none, .listed true]).IsOpenBelow top :=
    ⟨[.listed true, .loop none, .listed true, .loop (some loopLabel)], rfl, by decide⟩
  have h := isLeft_iff_open_break hrun (hflow.trans hreports) (mem_constructs nested)
  have hiff := h.2 fun j hj _ _ => by
    rw [controls_nested, List.mem_singleton, Control.jump.injEq] at hj
    exact hj ▸ ⟨hgoes, hopen⟩
  have hj : ∃ j, .jump j ∈ (outer nested).controls top ∧ j.kind = .breaks ∧ j.GoesTo top :=
    ⟨_, by rw [controls_nested]; exact List.mem_singleton_self _, rfl, hgoes⟩
  exact ⟨_, hrun, hflow.trans hreports, mem_constructs nested, hiff.mpr hj, hj⟩

open LabelledBreak DeferredBreak in
/-- The analysis and the check disagree about a break with the label `l` in a loop `for l`, in programs without a
report. If a loop inside has the label too, the break goes to that one, and the analysis says that the outer one is
left. In front of a condition, the break goes to the loop, and the analysis says that it is not left. -/
theorem isLeft_of_shadowed_not_isLeft_of_headed :
    ((checkFiles .standard (files shadowed)).collector.log = [] ∧
      ∃ b ∈ (checkFileLevel .standard (files shadowed)).2.queue, ∃ p ∈ b.constructs, p.2.isLeft = true ∧
        ∀ j, .jump j ∈ p.2.controls p.1 → ¬ j.GoesTo p.1) ∧
    (checkFiles .standard (files headed)).collector.log = [] ∧
      ∃ b ∈ (checkFileLevel .standard (files headed)).2.queue, ∃ p ∈ b.constructs, p.2.isLeft = false ∧
        ∃ j, .jump j ∈ p.2.controls p.1 ∧ j.kind = .breaks ∧ j.GoesTo p.1 := by
  refine ⟨⟨by decide +kernel, ?_⟩, by decide +kernel, ?_⟩
  · have hqueue : ∃ b ∈ (checkFileLevel .standard (files shadowed)).2.queue, ∃ p ∈ b.constructs, p.2.isLeft = true ∧
        p.1 = top ∧ p.2.controls p.1 = [.jump (inside [.listed true, .loop (some loopLabel), .listed true])] := by
      decide +kernel
    obtain ⟨b, hb, p, hp, hleft, hplace, hcontrols⟩ := hqueue
    refine ⟨b, hb, p, hp, hleft, fun j hj hgoes => ?_⟩
    rw [hcontrols, List.mem_singleton, Control.jump.injEq] at hj
    obtain ⟨inner, f, hjump, -, hinner⟩ := hgoes
    rw [hplace, hj] at hjump
    rw [hj] at hinner
    -- the loop inside takes the break
    obtain ⟨rfl, -⟩ := List.append_inj' hjump rfl
    exact absurd (hinner (.loop (some loopLabel)) (by simp)) (by decide +kernel)
  · have hqueue : ∃ b ∈ (checkFileLevel .standard (files headed)).2.queue, ∃ p ∈ b.constructs, p.2.isLeft = false ∧
        p.1 = top ∧ .jump (inside [.head none false, .listed true]) ∈ p.2.controls p.1 := by
      decide +kernel
    obtain ⟨b, hb, p, hp, hleft, hplace, hj⟩ := hqueue
    refine ⟨b, hb, p, hp, hleft, _, hj, rfl, ?_⟩
    rw [hplace]
    exact ⟨_, _, rfl, by decide +kernel, by decide +kernel⟩

end Statics
