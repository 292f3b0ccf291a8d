import Statics.Proofs.Run.Expressions

/-!
# Moves of declarations

Entering declarations and checking them on demand. A demand takes one declaration away from those that are pending, so
what every declaration does, given what the demands inside it do, gives what a demand does.
-/

namespace Statics

variable {type : Option Expr} {names : List Ident} {t : TypeId}

/-- The variables of a declaration. -/
def Declaration.variables : Declaration → List EntityId
  | .vars _ entities _ _ => entities
  | _ => []

variable {e : EntityId} {init : Expr} {pending : Pending} {xs : List (Operand × Expr)}
  {entities : List EntityId} {es values : List Expr} {x : Operand} {scope : ScopeId}

/-- What is known of a declaration that is kept for its first use: `L` of its expressions, and `P` of a procedure. -/
def Declaration.Holds (L : Expr → Prop) (P : ProcDecl → Prop) : Declaration → Prop
  | .constant _ written value => ∀ e ∈ written.toList ++ value.toList, L e
  | .vars _ _ written values => ∀ e ∈ written.toList ++ values, L e
  | .type _ written => L written
  | .proc _ d => P d

theorem Declaration.holds_true (d : Declaration) : d.Holds (fun _ => True) fun _ => True := by
  cases d <;> simp [Holds]

namespace Check

variable {R : Pass → Pass → Prop}

@[grind ←]
theorem moves_reportCycle [Reports R] : Moves R (reportCycle e) := by
  unfold reportCycle
  grind

/-! ## Checks of a procedure besides its signature -/

@[grind ←]
theorem moves_entryPointSignature [Reports R] : Moves R (entryPointSignature d t) := by
  unfold entryPointSignature
  grind

@[grind ←]
theorem moves_procTags [Reports R] : Moves R (procTags d) := by
  unfold procTags
  grind

@[grind ←]
theorem moves_bindForeign [Settles R F] : Moves R (bindForeign d e t) := by
  refine moves_read (fun _ _ => rfl) fun s => ?_
  split
  · grind
  · exact .of_ok (fun _ _ => rfl) fun s => ⟨_, _, rfl, Settles.claimSymbol s _⟩

@[grind ←]
theorem moves_foreignProc [Settles R F] {fileLevel : Bool} : Moves R (foreignProc d fileLevel e t) := by
  unfold foreignProc
  grind

theorem moves_reserveLink [Reports R] {link : Token} {pos : Pos}
    (hclaim : ∀ s : Pass, R s { s with links := s.links ++ [(link.text, pos)] }) : Moves R (reserveLink link pos) where
  along s := by
    have hget : (get : Check Pass) s = .ok s s := rfl
    have hmodify : (modify fun s => { s with links := s.links ++ [(link.text, pos)] } : Check PUnit) s =
      .ok () { s with links := s.links ++ [(link.text, pos)] } := rfl
    rw [reserveLink, after_bind hget, after_bind hmodify]
    split
    · exact Reports.trans (hclaim s) (along_emit (Reports.report _ _ rfl rfl))
    · exact hclaim s
  traced := reserveLink_eq_tell link pos ▸ traced_tell _

/-- The body of a procedure is queued. -/
def enqueueBody (d : ProcDecl) (e : EntityId) (scope : ScopeId) (t : TypeId) : Check Unit :=
  match d.body with
  | some block => modify fun s => { s with queue := s.queue ++ [⟨e, scope, t, block⟩] }
  | none => report d.token (.bodyMissing d.name.name)

/-- What a procedure does last: a foreign one is bound to its symbol, and the body of another is queued. -/
def conclude (d : ProcDecl) (fileLevel : Bool) (e : EntityId) (scope : ScopeId) (t : TypeId) : Check Unit := do
  if d.tags.foreign then foreignProc d fileLevel e t
  else
    match d.linkName with
    | some link => reserveLink link d.name.token.pos
    | none => pure ()
    enqueueBody d e scope t

theorem procedure_eq (resolve : Resolver) (ctx : Context) (e : EntityId) (d : ProcDecl) :
    procedure resolve ctx e d = (do
      let (scope, t) ← procSignature resolve ctx e d
      let fileLevel := ((← arena).scope ctx.scope).kind.isFileLevel
      if fileLevel && d.name.name == ctx.entryPoint then entryPointSignature d t
      procTags d
      conclude d fileLevel e scope t) := rfl

/-! ## Entities that are settled -/

section

variable {F : EntityId → Prop} [GivesTypes R F]

theorem moves_giveType (he : F e) {f : Entity → Entity} (hf : ∀ x, Entity.FillsIn x (f x))
    (hv : ∀ x v, x.kind = .constant (some v) → (f x).kind = .constant (some v)) :
    Moves R (onStore fun s => s.modifyEntity e f) :=
  .of_ok (fun _ _ => rfl) fun s => ⟨_, _, rfl, GivesTypes.giveType s e f he hf hv⟩

omit [GivesTypes R F] in
theorem fillsIn_setType (x : Entity) (t : TypeId) : x.FillsIn { x with type := x.type.or (some t) } where
  kind := rfl
  token := rfl
  home := rfl
  type u h := by simp [h]
  ident := rfl
  through := rfl
  used := rfl
  value v h := ⟨v, h⟩
  field := rfl
  info _ h := h
  visited := id
  anonymous := rfl
  procedure i h := ⟨i.scope, h⟩

@[grind ←]
theorem moves_setType (he : F e) (t : TypeId) : Moves R (setType e t) :=
  moves_giveType he (fun x => fillsIn_setType x t) fun _ _ h => h

@[grind ←]
theorem moves_setTypes (t : TypeId) (he : ∀ e ∈ entities, F e) : Moves R (setTypes t entities) := by
  induction entities with
  | nil => exact moves_pure _
  | cons e rest ih =>
    rw [List.forall_mem_cons] at he
    exact moves_bind (moves_setType he.1 t) fun _ => ih he.2

@[grind ←]
theorem moves_visit (he : ∀ e ∈ entities, F e) : Moves R (visit entities) := by
  induction entities with
  | nil => exact moves_pure _
  | cons e rest ih =>
    rw [List.forall_mem_cons] at he
    refine moves_bind (moves_giveType he.1 (fun x => ?_) fun x v h => by simp [h]) fun _ => ih he.2
    refine ⟨?_, ?_, fun i hi => ⟨i.scope, by simp [hi]⟩⟩
    · constructor <;> grind [EntityKind.name, Entity.isField, Entity.isVisited, Entity.var?]
    · grind [Entity.isAnonymous]

/-! ## Variables -/

section

variable {L : Expr → Prop} {V : Operand → Expr → Prop} [Follows R L V]

include L V

theorem follows_inferType (he : F e) (hx : V x init) : Moves R (inferType e x init) := by
  have ha := fun target => Follows.assign (R := R) hx target .variableDeclaration
  unfold inferType
  grind

theorem follows_initVariable (he : F e) (hx : V x init) : Moves R (initVariable e x init) := by
  have hinfer := follows_inferType (R := R) he hx
  have ha := fun target => Follows.assign (R := R) hx target .variableDeclaration
  unfold initVariable
  grind

/-- Variables are initialized along whatever allows to assign the operands to them. -/
theorem follows_initEach (he : ∀ e ∈ entities, F e) (hx : ∀ p ∈ xs, V p.1 p.2) : Moves R (initEach entities xs) := by
  induction entities generalizing xs with
  | nil => cases xs <;> exact moves_pure _
  | cons e entities ih =>
    rw [List.forall_mem_cons] at he
    cases xs with
    | nil =>
      unfold initEach
      exact moves_bind (moves_setType he.1 _) fun _ => ih he.2 (by simp)
    | cons p xs =>
      rw [List.forall_mem_cons] at hx
      unfold initEach
      exact moves_bind (follows_initVariable he.1 hx.1) fun _ => ih he.2 hx.2

omit [GivesTypes R F] [Follows R L V] L V in
theorem moves_operandsOf [Reports R]
    (h : ∀ e ∈ es, Moves R (expr resolve ctx .value e)) : Moves R (operands resolve ctx es) := by
  induction es with
  | nil => exact moves_pure _
  | cons e rest ih =>
    rw [List.forall_mem_cons] at h
    have hrest := ih h.2
    unfold operands
    grind

omit [GivesTypes R F] in
include R in
theorem fits_operands (hes : ∀ e ∈ es, L e) {s t : Pass} (h : operands resolve ctx es s = .ok xs t) :
    ∀ p ∈ xs, V p.1 p.2 := by
  induction es generalizing s xs with
  | nil =>
    cases h
    simp
  | cons e rest ih =>
    rw [List.forall_mem_cons] at hes
    unfold operands at h
    obtain ⟨x, s₁, hx, h⟩ := bind_eq_ok.mp h
    obtain ⟨a, s₂, -, h⟩ := bind_eq_ok.mp h
    obtain ⟨more, s₃, hmore, h⟩ := bind_eq_ok.mp h
    cases h
    intro p hp
    rcases List.mem_append.mp hp with hp | hp
    · exact Follows.spliced R (Follows.fits R hes.1 hx) p hp
    · exact ih hes.2 hmore p hp

section

variable {resolve : Resolver} {ctx : Context} (hx : ∀ e, L e → ∀ reading, Moves R (expr resolve ctx reading e))

include hx

theorem follows_initVariables (he : ∀ e ∈ entities, F e) {inits : List Expr}
    (hi : ∀ e ∈ inits, L e) (token : Token) : Moves R (initVariables resolve ctx entities token inits) := by
  have hread := moves_operandsOf fun e he => hx e (hi e he) .value
  refine moves_bindResult hread (fun hrun => fits_operands (R := R) hi hrun) (fun xs => ?_) fun xs hxs => ?_
  · have hinit : Moves LogGrows (initEach entities xs) := follows_initEach (F := fun _ => True) (by simp) (by simp)
    exact (show Moves LogGrows _ by grind).traced
  · have hinit : Moves R (initEach entities xs) := follows_initEach he hxs
    grind

theorem follows_readVariables (he : ∀ e ∈ entities, F e) (h : ∀ e ∈ type.toList ++ values, L e) (token : Token) :
    Moves R (readVariables resolve ctx entities token type values) := by
  rw [List.forall_mem_append] at h
  have ht (e : Expr) (he : e ∈ type) := hx e (h.1 e (Option.mem_toList.mpr he)) (.type none)
  have hi := follows_initVariables hx he h.2
  have hset := fun t => moves_setTypes (R := R) t he
  unfold readVariables
  cases type <;> cases values <;> grind

/-- Variables are declared along whatever allows to read their type and to initialize them. -/
theorem follows_varDecl [ReadsVariables R] (he : ∀ e ∈ entities, F e) (h : ∀ e ∈ type.toList ++ values, L e) :
    Moves R (varDecl resolve ctx entities type values) := by
  have ht (e : Expr) (he : e ∈ type) := hx e (h e (List.mem_append_left _ (Option.mem_toList.mpr he))) (.type none)
  have hread := follows_readVariables hx he h
  unfold varDecl
  refine moves_bind moves_arena fun a => ?_
  cases entities with
  | nil => cases type <;> grind
  | cons first rest => grind

end

end

section

variable [Observes R]

@[grind ←]
theorem moves_initVariable (he : F e) : Moves R (initVariable e x init) :=
  follows_initVariable he (by trivial)

@[grind ←]
theorem moves_initEach (he : ∀ e ∈ entities, F e) (xs : List (Operand × Expr)) :
    Moves R (initEach entities xs) := follows_initEach he (by simp)

omit [GivesTypes R F] [Observes R] in
theorem moves_operands [Reports R] (h : ∀ e, Moves R (expr resolve ctx .value e)) : Moves R (operands resolve ctx es) :=
  moves_operandsOf fun e _ => h e

section

variable {resolve : Resolver} {ctx : Context} (hx : ∀ reading e, Moves R (expr resolve ctx reading e))

include hx

theorem moves_readVariables (he : ∀ e ∈ entities, F e) (token : Token) (type : Option Expr)
    (values : List Expr) : Moves R (readVariables resolve ctx entities token type values) :=
  follows_readVariables (fun e _ reading => hx reading e) he (fun _ _ => trivial) token

theorem moves_varDecl [ReadsVariables R] (he : ∀ e ∈ entities, F e) (type : Option Expr)
    (values : List Expr) : Moves R (varDecl resolve ctx entities type values) :=
  follows_varDecl (fun e _ reading => hx reading e) he fun _ _ => trivial

end

end

end

/-! ## Constants and procedures -/

section

variable {F : EntityId → Prop} [FillsIn R F]

theorem moves_fillIn (he : F e) {f : Entity → Entity} (hf : ∀ x, Entity.FillsIn x (f x)) :
    Moves R (onStore fun s => s.modifyEntity e f) :=
      .of_ok (fun _ _ => rfl) fun s => ⟨_, _, rfl, FillsIn.fillIn s e f he hf⟩

theorem moves_storeValue (he : F e) {t : TypeId}
    (ha : Moves R (assign x init (some t) .constantDeclaration)) : Moves R (do
    let x ← assign x init (some t) .constantDeclaration
    match x.isInvalid, x.constant? with
    | false, some v => onStore fun s => s.modifyEntity e fun entity =>
        match entity.kind with
        | .constant _ => { entity with kind := .constant (some v) }
        | _ => entity
    | _, _ => pure ()) := by
  refine moves_bind ha fun y => ?_
  split
  · refine moves_fillIn he fun x => ⟨?_, ?_, fun i hi => ⟨i.scope, by simp [hi]⟩⟩
    · constructor <;> grind [EntityKind.name, Entity.isField, Entity.isVisited, Entity.var?]
    · grind [Entity.isAnonymous]
  · exact moves_pure _

section

variable {L : Expr → Prop} {V : Operand → Expr → Prop} [Follows R L V]

include L V

/-- A constant is initialized along whatever allows to assign the operand to it. -/
theorem follows_initConstant (he : F e) (hx : V x init) : Moves R (initConstant e x init) := by
  refine moves_bind moves_arena fun a => ?_
  dsimp only
  split
  · exact moves_setType he _
  · split
    · exact moves_bind (moves_setType he _) fun _ => moves_storeValue he (Follows.assign hx _ _)
    · exact moves_bind (moves_report rfl) fun _ => moves_setType he _

theorem follows_constant (hx : ∀ e, L e → ∀ reading, Moves R (expr resolve ctx reading e)) (he : F e)
    {value : Option Expr} (h : ∀ e ∈ type.toList ++ value.toList, L e) :
    Moves R (constant resolve ctx e type value) := by
  rw [List.forall_mem_append] at h
  have ht (t : Expr) (ht : t ∈ type) := hx t (h.1 t (Option.mem_toList.mpr ht)) (.type none)
  have hv (init : Expr) (hi : init ∈ value) : Moves R (do initConstant e (← expr resolve ctx .value init) init) := by
    have hl := h.2 init (Option.mem_toList.mpr hi)
    refine moves_bindResult (hx init hl .value) (fun hrun => Follows.fits R hl hrun) (fun x => ?_) fun x hx => ?_
    · exact (follows_initConstant (R := LogGrows) (F := fun _ => True) trivial (by trivial)).traced
    · exact follows_initConstant he hx
  unfold constant
  cases type <;> cases value <;> grind

end

section

variable [Observes R]

@[grind ←]
theorem moves_initConstant (he : F e) (x : Operand) (init : Expr) : Moves R (initConstant e x init) :=
  follows_initConstant he (by trivial)

theorem moves_constant (hx : ∀ reading e, Moves R (expr resolve ctx reading e)) (he : F e) {value : Option Expr} :
    Moves R (constant resolve ctx e type value) :=
  follows_constant (fun e _ reading => hx reading e) he fun _ _ => trivial

end

omit [FillsIn R F] in
theorem fillsIn_setScope (x : Entity) (scope : ScopeId) : x.FillsIn (match x.kind with
      | .procedure info => { x with kind := .procedure { info with scope := some scope } }
      | _ => x) := by
  refine ⟨?_, ?_, fun i hi => ⟨some scope, by simp [hi]⟩⟩
  · constructor <;> grind [EntityKind.name, Entity.isField, Entity.isVisited, Entity.var?]
  · grind [Entity.isAnonymous]

section

variable {resolve : Resolver} {ctx : Context} {d : ProcDecl}
  (hs : ∀ scope, Moves R (signature resolve (ctx.within scope) (some scope) d.signature))

include hs

theorem moves_procSignature (he : F e) : Moves R (procSignature resolve ctx e d) := by
  refine moves_bind moves_openScope fun scope => ?_
  refine moves_bind (hs scope) fun t => ?_
  refine moves_bind (moves_setType he t) fun _ => ?_
  exact moves_bind (moves_fillIn he fun x => fillsIn_setScope x scope) fun _ => moves_pure _

omit hs [FillsIn R F] in
include F in
/-- What a procedure does once its signature was read. -/
theorem exists_afterSignature [Settles R F] (d : ProcDecl)
    (hl : ∀ link ∈ d.linkName, ∀ pos s, R s { s with links := s.links ++ [(link.text, pos)] })
    (hq : ∀ scope t block, d.body = some block → ∀ s, R s { s with queue := s.queue ++ [⟨e, scope, t, block⟩] }) :
    ∃ rest : ScopeId × TypeId → Check Unit,
      procedure resolve ctx e d = procSignature resolve ctx e d >>= rest ∧ ∀ p, Moves R (rest p) := by
  refine ⟨_, rfl, fun (scope, t) => moves_bind moves_arena fun a => ?_⟩
  have hreserve (link : Token) (hlink : d.linkName = some link) : Moves R (reserveLink link d.name.token.pos) :=
    moves_reserveLink (hl link hlink _)
  cases hb : d.body with
  | none => grind
  | some block =>
    have hq : Moves R (modify fun s => { s with queue := s.queue ++ [⟨e, scope, t, block⟩] }) :=
      .of_ok (fun _ _ => rfl) fun s => ⟨_, _, rfl, hq scope t block hb s⟩
    grind

omit [FillsIn R F] in
theorem moves_procedure [Settles R F] (he : F e)
    (hl : ∀ link ∈ d.linkName, ∀ pos s, R s { s with links := s.links ++ [(link.text, pos)] })
    (hq : ∀ scope t block, d.body = some block → ∀ s, R s { s with queue := s.queue ++ [⟨e, scope, t, block⟩] }) :
    Moves R (procedure resolve ctx e d) := by
  obtain ⟨rest, heq, hrest⟩ := exists_afterSignature (F := F) d hl hq
  rw [heq]
  exact moves_bind (moves_procSignature hs he) hrest

end

end

/-! ## Named types -/

theorem moves_namedType [OpensNames R F]
    {type : Expr} (hx : ∀ reading, Moves R (expr resolve (ctx.declaring e) reading type)) (he : F e) :
    Moves R (namedType resolve ctx e type) := by
  refine moves_bind (moves_entity e) fun x => ?_
  have ht (named : TypeId) : Moves R (do
      setType e named
      let t ← expr resolve (ctx.declaring e) (.type (some named)) type
      return namedBase (← arena) t.type) := by grind
  have h := moves_fill Ty.withBase (fun s u => OpensNames.stopNamed s u x.name e) ht
    fun s u base _ h => OpensNames.fillNamed s u x.name e base h
  have h := moves_bind h fun _ => moves_pure ()
  simp only [bind_assoc, pure_bind, bind_pure_unit] at h
  exact h

/-! ## Demand -/

/-- What is taken was pending, and so is what is left. -/
theorem subset_of_take? {rest : Pending} {d : Declaration}
    (h : take? e pending = some (d, rest)) : (e, d) ∈ pending ∧ rest ⊆ pending := by
  induction pending generalizing rest with
  | nil => cases h
  | cons p tail ih =>
    unfold take? at h
    split at h
    case isTrue he =>
      cases h
      exact ⟨by simp [← he], List.subset_cons_self _ _⟩
    case isFalse =>
      obtain ⟨⟨d', rest'⟩, hq, heq⟩ := Option.map_eq_some_iff.mp h
      cases heq
      obtain ⟨hmem, hsub⟩ := ih hq
      exact ⟨List.mem_cons_of_mem _ hmem, List.cons_subset_cons p hsub⟩

theorem length_lt_of_take? {rest : Pending} {d : Declaration} (h : take? e pending = some (d, rest)) :
    rest.length < pending.length := Nat.lt_of_lt_of_eq (Nat.lt_succ_self _) (length_of_take? h).symm

/-- A declaration that is kept can be taken. -/
theorem isSome_take? (h : e ∈ pending.map Prod.fst) : (take? e pending).isSome := by
  induction pending with
  | nil => simp at h
  | cons p tail ih =>
    unfold take?
    split
    · rfl
    case isFalse hne =>
      rw [List.map_cons, List.mem_cons] at h
      simpa using ih (h.resolve_left fun heq => hne heq.symm)

section

variable {F : EntityId → Prop} {W : EntityId × Declaration → Prop} [Settles R F] [Records R]
  (h : ∀ {resolve : Resolver}, (∀ ctx e, Moves R (resolve ctx e)) → ∀ {p}, W p → F p.1 → ∀ ctx,
    Moves R (declaration resolve ctx p.1 p.2)) (hout : ∀ pending ctx e, ¬ F e → Moves R (demandFrom pending ctx e))

include h hout

/-- A demand moves along whatever the declarations that are pending move along, given that the demands inside them
do. -/
theorem follows_demandFrom (pending : Pending) (hp : ∀ p ∈ pending, W p) (ctx : Context)
    (e : EntityId) : Moves R (demandFrom pending ctx e) := by
  by_cases he : F e
  case neg => exact hout pending ctx e he
  unfold demandFrom
  refine moves_bind (moves_entity e) fun x => ?_
  split
  · exact moves_pure _
  · refine moves_read (fun _ _ => rfl) fun s => ?_
    split
    · grind
    · split
      case h_1 d rest taken =>
        have hlt := length_lt_of_take? taken
        obtain ⟨hmem, hsub⟩ := subset_of_take? taken
        have hrest := follows_demandFrom rest fun p hq => hp p (hsub hq)
        refine moves_bind (moves_record _) fun _ => ?_
        exact moves_bind (h hrest (hp _ hmem) he _) fun _ => moves_record _
      case h_2 => exact moves_pure _
termination_by pending.length

end

/-- Declarations move along whatever allows to read their expressions and to check procedures. -/
theorem follows_declaration {F G : EntityId → Prop} {L : Expr → Prop} {V : Operand → Expr → Prop} [Follows R L V]
    [NamesTypes R F] [GivesTypes R G] [ReadsVariables R]
    (hx : ∀ e, L e → ∀ ctx reading, Moves R (expr resolve ctx reading e)) {P : ProcDecl → Prop}
    (hproc : ∀ d, P d → ∀ ctx, Moves R (procedure resolve ctx e d)) {d : Declaration} (hd : d.Holds L P) (he : F e)
    (hvars : ∀ e ∈ d.variables, G e) : Moves R (declaration resolve ctx e d) := by
  cases d with
  | constant scope type value => exact follows_constant (fun e he => hx e he ctx) he hd
  | vars scope entities type values => exact follows_varDecl (fun e he => hx e he ctx) hvars hd
  | type scope type => exact moves_namedType (hx type hd _) he
  | proc scope d => exact hproc d hd ctx

section

variable [Demands R]

theorem moves_declaration (hr : ∀ ctx e, Moves R (resolve ctx e)) (ctx : Context) (e : EntityId)
    (d : Declaration) : Moves R (declaration resolve ctx e d) := by
  refine follows_declaration (F := fun _ => True) (fun e _ ctx reading => moves_expr hr ctx reading e)
    (fun d _ ctx => ?_) d.holds_true trivial (fun _ _ => trivial)
  exact moves_procedure (fun scope => moves_anySignature hr) trivial
    (fun _ _ _ s => Demands.claimLink s _) fun _ _ _ _ s => Demands.enqueue s _

theorem moves_demandFrom (pending : Pending) (ctx : Context) (e : EntityId) :
    Moves R (demandFrom pending ctx e) :=
  follows_demandFrom (W := fun _ => True) (fun hr p _ _ ctx => moves_declaration hr ctx p.1 p.2)
    (by simp) pending (by simp) ctx e

@[grind ←]
theorem moves_demand (ctx : Context) (e : EntityId) : Moves R (demand ctx e) :=
  moves_read (fun _ _ => rfl) fun s => moves_demandFrom s.decls ctx e

end

/-! ## Entering declarations -/

@[grind ←]
theorem moves_newVariables [OpensVariables R] : Moves R (newVariables names) := by
  induction names with
  | nil => exact moves_pure _
  | cons name rest ih =>
    refine moves_bind (.of_ok (fun _ _ => rfl) fun s => ⟨_, _, rfl, OpensVariables.newVariable s _ _⟩) fun e => ?_
    exact moves_bind ih fun es => moves_pure _

@[grind ←]
theorem moves_hoist [Prepares R] (id : NodeId) : Moves R (hoist id) :=
  .of_ok (fun _ _ => rfl) fun s => ⟨_, _, rfl, Prepares.hoist s id⟩

section

variable [Enters R]

@[grind ←]
theorem moves_newWaiting {e : Entity} (h : e.type = none) : Moves R (newEntity e) :=
  .of_ok (fun _ _ => rfl) fun s => ⟨_, _, rfl, Prepares.newWaiting s e h⟩

@[grind ←]
theorem moves_await {d : Declaration} : Moves R (await e d) :=
  .of_ok (fun _ _ => rfl) fun s => ⟨_, _, rfl, Enters.await s (e, d)⟩

@[grind ←]
theorem moves_bindGlobals {d : Declaration} {entries : List (Ident × EntityId)} :
    Moves R (bindGlobals scope d entries) := by
  induction entries with
  | nil => exact moves_pure _
  | cons p rest ih => exact moves_bind moves_bindIdent fun _ => moves_bind moves_await fun _ => ih

@[grind ←]
theorem moves_enterConstants : Moves R (enterConstants scope type names values) := by
  induction names generalizing values with
  | nil => cases values <;> unfold enterConstants <;> grind
  | cons name names ih =>
    unfold enterConstants
    grind

end

end Check

end Statics
