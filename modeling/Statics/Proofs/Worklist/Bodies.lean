import Statics.Proofs.Journal
import Statics.Proofs.Worklist.Checks

/-!
# The worklist of a body

A statement that declares a procedure also checks the declaration. So between two statements all declared procedures
of the pass have types, and other statements queue nothing and claim no link names. `Schedules P L` follows this
through the statements of a body, for the blocks of its procedures and their link names.

A procedure inside a body is nested less deeply than the body. So after as many rounds as a body is nested, nothing is
left in the queue: `Check.drained_bodyAndNested`.
-/

namespace Statics

variable {depth : Nat} {d : Decl} {s t : Pass}

/-! ## Procedures inside statements -/

mutual

/-- The procedures that are declared in a statement at any depth, also in the bodies of others. -/
def Stmt.procs : Stmt → List ProcDecl
  | .decl d => d.procs
  | .block body => Block.procs body
  | .branchOn _ init _ body otherwise => Stmt.procsOption init ++ Block.procs body ++ Stmt.procsOption otherwise
  | .loop _ _ init _ post body => Stmt.procsOption init ++ Stmt.procsOption post ++ Block.procs body
  | .switch _ _ init _ clauses => Stmt.procsOption init ++ Clause.procsList clauses
  | .typeSwitch _ _ _ _ clauses => Clause.procsList clauses
  | .defer _ s => Stmt.procs s
  | _ => []

@[inherit_doc Stmt.procs]
def Stmt.procsOption : Option Stmt → List ProcDecl
  | none => []
  | some s => Stmt.procs s

@[inherit_doc Stmt.procs]
def Stmt.procsList : List Stmt → List ProcDecl
  | [] => []
  | s :: rest => Stmt.procs s ++ Stmt.procsList rest

/-- The procedures that are declared in a block at any depth. -/
def Block.procs : Block → List ProcDecl
  | ⟨_, _, _, stmts⟩ => Stmt.procsList stmts

@[inherit_doc Block.procs]
def Block.procsOption : Option Block → List ProcDecl
  | none => []
  | some b => b.procs

/-- The procedures that are declared in clauses at any depth. -/
def Clause.procsList : List Clause → List ProcDecl
  | [] => []
  | ⟨_, _, stmts⟩ :: rest => Stmt.procsList stmts ++ Clause.procsList rest

/-- The procedures in a declaration, itself included. -/
def Decl.procs : Decl → List ProcDecl
  | .proc ⟨token, name, signature, body, tags, foreignName, linkName⟩ =>
    ⟨token, name, signature, body, tags, foreignName, linkName⟩ :: Block.procsOption body
  | _ => []

end

theorem Decl.procs_proc (d : ProcDecl) : (Decl.proc d).procs = d :: Block.procsOption d.body := by
  cases d
  simp [Decl.procs]

theorem Decl.nesting_proc (d : ProcDecl) : (Decl.proc d).nesting = Block.nestingOption d.body + 1 := by
  cases d
  simp [Decl.nesting]

/-- The procedures of a declaration are among some, and they are nested to some depth at most. -/
structure Decl.Inside (procs : List ProcDecl) (depth : Nat) (d : Decl) : Prop where
  procs : d.procs ⊆ procs
  nesting : d.nesting ≤ depth

theorem Decl.Inside.mono {procs procs' : List ProcDecl} {depth' : Nat} (h : d.Inside procs depth)
    (hsub : procs ⊆ procs') (hle : depth ≤ depth') : d.Inside procs' depth' :=
  ⟨List.Subset.trans h.procs hsub, Nat.le_trans h.nesting hle⟩

/-- A declaration in a statement has its procedures among those of the statement, and is not nested more deeply. -/
theorem Decl.inside_of_mem :
    (∀ s : Stmt, ∀ d ∈ s.decls, d.Inside s.procs s.nesting) ∧
    (∀ clauses, ∀ d ∈ Clause.declsList clauses, d.Inside (Clause.procsList clauses) (Clause.nestingList clauses)) ∧
    (∀ stmts, ∀ d ∈ Stmt.declsList stmts, d.Inside (Stmt.procsList stmts) (Stmt.nestingList stmts)) ∧
    (∀ s, ∀ d ∈ Stmt.declsOption s, d.Inside (Stmt.procsOption s) (Stmt.nestingOption s)) ∧
    (∀ b : Block, ∀ d ∈ b.decls, d.Inside b.procs b.nesting) := by
  have hself (d : Decl) : d.Inside d.procs d.nesting := ⟨List.Subset.refl _, Nat.le_refl _⟩
  apply Stmt.decls.mutual_induct <;>
    grind [Stmt.decls, Clause.declsList, Stmt.declsList, Stmt.declsOption, Block.decls, Stmt.procs, Clause.procsList,
      Stmt.procsList, Stmt.procsOption, Block.procs, Stmt.nesting, Clause.nestingList, Stmt.nestingList,
      Stmt.nestingOption, Block.nesting, Decl.Inside.mono]

theorem Block.inside_of_mem {b : Block} (hd : d ∈ b.decls) : d.Inside b.procs b.nesting :=
  Decl.inside_of_mem.2.2.2.2 b d hd

/-- A body is that of a procedure among some, nested less deeply than some depth, with all its procedures among them. -/
structure Block.Inside (procs : List ProcDecl) (depth : Nat) (b : Block) : Prop where
  procs : b.procs ⊆ procs
  nesting : b.nesting < depth

theorem Decl.Inside.body {procs : List ProcDecl} {d : ProcDecl} (h : Decl.Inside procs depth (.proc d)) {b : Block}
    (hb : d.body = some b) : b.Inside procs depth := by
  obtain ⟨hprocs, hnesting⟩ := h
  rw [Decl.procs_proc, hb, Block.procsOption, List.cons_subset] at hprocs
  rw [Decl.nesting_proc, hb, Block.nestingOption] at hnesting
  exact ⟨hprocs.2, hnesting⟩

/-! ## Between statements -/

/-- A pass between two statements: its declarations are those of different entities, and its procedures have types. -/
structure Pass.Orderly (s : Pass) : Prop where
  declared : s.Declared
  keys : (s.decls.map Prod.fst).Nodup
  typed : ∀ e scope d, (e, .proc scope d) ∈ s.decls → (s.store.arena.entity e).type.isSome

theorem Pass.Orderly.start (store : Store) (links : List (String × Pos)) (collector : Collector) :
    Pass.Orderly (.start store links collector) :=
  ⟨by simp [Pass.Declared, Pass.start], by simp [Pass.start], by simp [Pass.start]⟩

theorem Pass.Orderly.grows (h : s.Orderly) (hg : s.Grows t) (hd : t.decls = s.decls) : t.Orderly where
  declared := h.declared.grows hg hd
  keys := hd ▸ h.keys
  typed e scope d hmem := hg.isSome_type (h.typed e scope d (hd ▸ hmem))

/-- A pass got from one point between statements to another. It queued blocks in `P` and claimed link names in `L`. -/
structure Progress (P : Block → Prop) (L : List String) (s t : Pass) : Prop where
  orderly : t.Orderly
  queue : ∃ new, t.queue = s.queue ++ new ∧ ∀ b ∈ new, P b.block
  links : ∃ new, t.links = s.links ++ new ∧ ∀ p ∈ new, p.1 ∈ L

/-- Statements make progress, unless too many errors stop them. -/
structure Schedules (P : Block → Prop) (L : List String) (s t : Pass) : Prop where
  grows : s.Grows t
  log : LogGrows s t
  progress : s.Orderly → ¬ t.collector.isFatal → Progress P L s t

section

variable {P : Block → Prop} {L : List String} {s t u : Pass}

theorem Progress.of_eq (h : t.Orderly) (hq : t.queue = s.queue) (hl : t.links = s.links) : Progress P L s t :=
  ⟨h, ⟨[], by simp [hq], by simp⟩, ⟨[], by simp [hl], by simp⟩⟩

/-- A run makes progress if the procedures that it checks have their bodies in `P` and their link names in `L`. -/
theorem Progress.of_performs {done : Pending} (h : Performs done s t) (ht : t.Orderly)
    (hdone : ∀ p ∈ procEntries done, (∀ b, p.2.body = some b → P b) ∧ p.2.ownLinks ⊆ L) : Progress P L s t where
  orderly := ht
  queue := by
    obtain ⟨new, hqueue, hnew⟩ := h.queue
    refine ⟨new, hqueue, fun b hb => ?_⟩
    obtain ⟨p, hp, htask⟩ := List.mem_filterMap.mp (hnew ▸ List.mem_map_of_mem hb : b.task ∈ tasksOf (procEntries done))
    obtain ⟨block, hbody, heq⟩ := Option.map_eq_some_iff.mp htask
    obtain rfl : block = b.block := congrArg Prod.snd heq
    exact (hdone p hp).1 _ (body_of_ownBody hbody)
  links := by
    refine ⟨_, h.links, fun q hq => ?_⟩
    rw [← map_snd_procEntries] at hq
    obtain ⟨d, hd, hclaim⟩ := List.mem_filterMap.mp hq
    obtain ⟨p, hp, rfl⟩ := List.mem_map.mp hd
    exact (hdone p hp).2 (mem_ownLinks_of_claim hclaim)

theorem Progress.trans (h : Progress P L s t) (h' : Progress P L t u) : Progress P L s u where
  orderly := h'.orderly
  queue := by
    obtain ⟨new, hqueue, hnew⟩ := h.queue
    obtain ⟨new', hqueue', hnew'⟩ := h'.queue
    exact ⟨new ++ new', by rw [hqueue', hqueue, List.append_assoc], List.forall_mem_append.mpr ⟨hnew, hnew'⟩⟩
  links := by
    obtain ⟨new, hlinks, hnew⟩ := h.links
    obtain ⟨new', hlinks', hnew'⟩ := h'.links
    exact ⟨new ++ new', by rw [hlinks', hlinks, List.append_assoc], List.forall_mem_append.mpr ⟨hnew, hnew'⟩⟩

namespace Schedules

theorem of_eq (hg : s.Grows t) (hlog : LogGrows s t) (hd : t.decls = s.decls) (hq : t.queue = s.queue)
    (hl : t.links = s.links) : Schedules P L s t :=
  ⟨hg, hlog, fun h _ => .of_eq (h.grows hg hd) hq hl⟩

theorem trans (h : Schedules P L s t) (h' : Schedules P L t u) : Schedules P L s u where
  grows := h.grows.trans h'.grows
  log := h.log.trans h'.log
  progress hs hroom :=
    have hfirst := h.progress hs fun hfatal => hroom (h'.log.isFatal hfatal)
    hfirst.trans (h'.progress hfirst.orderly hroom)

instance : Binds (Schedules P L) :=
  .of_idle (fun h hlog hst => of_eq h hlog hst.decls hst.queue hst.links) trans

instance : Observes (Schedules P L) :=
  .of_idle (fun h hlog hst => of_eq h hlog hst.decls hst.queue hst.links) trans

end Schedules

end

namespace Check

variable {α : Type} {P : Block → Prop} {L : List String}

/-- A run that stops has too many errors, so only runs that complete make progress. -/
theorem moves_schedules {x : Check α} (hgrows : Moves Pass.Grows x) (hlog : Moves LogGrows x)
    (h : ∀ {s a t}, x s = .ok a t → ¬ t.collector.isFatal → s.Orderly →
    Progress P L s t) : Moves (Schedules P L) x where
  along s := by
    refine ⟨hgrows.along s, hlog.along s, fun hs hroom => ?_⟩
    cases hrun : x s with
    | ok a t =>
      rw [after_of_ok hrun] at hroom ⊢
      exact h hrun hroom hs
    | error stop t =>
      rw [after_of_error hrun] at hroom
      exact absurd (hgrows.fatal hrun) hroom
  traced := hgrows.traced

/-- Where all procedures have types, a run checks none of them, so it queues and claims nothing. -/
theorem moves_schedulesNothing {x : Check α} (hworks : Moves Works x) (hkept : Moves Advances x) :
    Moves (Schedules P L) x := by
  have hlog : Moves LogGrows x := hworks.mono fun _ _ ⟨_, _, h⟩ => h.log
  refine moves_schedules (hkept.mono fun _ _ h => h.grows) hlog fun {s a t} hrun hroom hs => ?_
  have hst := hkept.ok hrun
  obtain ⟨pending, hpending, hexecutes⟩ := hworks.ok hrun
  obtain ⟨done, hdone, hperforms⟩ := hexecutes.done hroom
  refine .of_performs hperforms (hs.grows hst.grows hst.decls) fun p hp => ?_
  obtain ⟨scope, hmem⟩ := mem_procEntries.mp hp
  have htyped := hs.typed p.1 scope p.2 (hst.decls ▸ hpending (hdone hmem))
  simp [hperforms.untyped p hp] at htyped

instance : Evaluates (Schedules P L) where
  expr ctx reading e _ :=
    moves_schedulesNothing (moves_expr works_demand ctx reading e) (moves_expr moves_demand ctx reading e)
  demand ctx e _ := moves_schedulesNothing (works_demand ctx e) (moves_demand ctx e)

/-- Declarations that are entered are those of new entities. -/
theorem keys_of_lists {new : Pending} (h : Lists new s t) (hs : s.Orderly) : (t.decls.map Prod.fst).Nodup := by
  rw [h.decls, List.map_append]
  refine List.nodup_append.mpr ⟨h.keys, hs.keys, ?_⟩
  intro e he e' he' heq
  obtain ⟨p', hp', rfl⟩ := List.mem_map.mp he'
  obtain ⟨x, hx, -⟩ := (hs.declared p' hp').own.entity
  rw [← heq, (h.fresh e he).1] at hx
  cases hx

/-- Declarations other than procedures may be entered between statements. -/
theorem schedules_enters {decl : Decl} {scope : ScopeId} {ids : α → List EntityId} {x : Check α}
    (hx : decl.Enters scope ids x) (hprocs : (Stmt.decl decl).ownProcs = []) : Moves (Schedules P L) x := by
  refine moves_schedules (Registers.register hx) (Registers.register hx) fun {s a t} hrun _ hs => ?_
  have hdeclared : KeepsDeclared s t := (Registers.register hx).ok hrun
  obtain ⟨new, hlists, hperm, -⟩ := registered_enters hx hrun
  refine .of_eq ⟨hdeclared.declared hs.declared, keys_of_lists hlists hs, ?_⟩ hlists.queue hlists.links
  intro e scope d hmem
  rw [hlists.decls, List.mem_append] at hmem
  rcases hmem with hmem | hmem
  · have hd : d ∈ procsOf new := List.mem_filterMap.mpr ⟨_, hmem, rfl⟩
    simp [(hprocs ▸ hperm).eq_nil] at hd
  · exact hlists.grows.isSome_type (hs.typed e scope d hmem)

/-! ## Declarations as statements -/

/-- A statement that declares a procedure queues its body at most, and claims its link name at most. -/
theorem progress_declareProc {ctx : Context} {d : ProcDecl} {e : EntityId} {u : Pass}
    (hbody : ∀ b, d.body = some b → P b) (hlinks : d.ownLinks ⊆ L) (hdeclare : declareProc d ctx.scope s = .ok e t)
    (hdemand : demand ctx e t = .ok () u) (hroom : ¬ u.collector.isFatal) (hs : s.Orderly) : Progress P L s u := by
  have hlists := lists_declareProc hdeclare
  have hdecl : t.Declared := ((moves_procName ctx.scope d).ok hdeclare : KeepsDeclared s t).declared hs.declared
  have hkeys := keys_of_lists hlists hs
  have htu : Advances t u := (moves_demand ctx e).ok hdemand
  have hmem : (e, .proc ctx.scope d) ∈ t.decls := by simp [hlists.decls]
  have hold {e' : EntityId} {scope : ScopeId} {d' : ProcDecl} (h : (e', .proc scope d') ∈ s.decls) :
      (t.store.arena.entity e').type.isSome := hlists.grows.isSome_type (hs.typed e' scope d' h)
  have horderly : u.Orderly := by
    refine ⟨hdecl.grows htu.grows htu.decls, htu.decls ▸ hkeys, fun e' scope d' h => ?_⟩
    rw [htu.decls, hlists.decls, List.singleton_append, List.mem_cons] at h
    rcases h with h | h
    · cases h
      exact typed_demand hdemand hdecl hmem
    · exact htu.grows.isSome_type (hold h)
  obtain ⟨done, hdone, hperforms⟩ := ((executes_demandFrom t.decls ctx e).ok hdemand).done hroom
  -- Only the new procedure has no type yet.
  have honly {p : EntityId × ProcDecl} (hp : p ∈ procEntries done) : p.2 = d := by
    obtain ⟨scope, h⟩ := mem_procEntries.mp hp
    have h := hdone h
    rw [hlists.decls, List.singleton_append, List.mem_cons] at h
    rcases h with h | h
    · cases h
      rfl
    · simpa [hperforms.untyped p hp] using hold h
  have hprogress : Progress P L t u := .of_performs hperforms horderly fun p hp => honly hp ▸ ⟨hbody, hlinks⟩
  refine ⟨horderly, ?_, ?_⟩
  · rw [← hlists.queue]
    exact hprogress.queue
  · rw [← hlists.links]
    exact hprogress.links

theorem schedules_localVariables (ctx : Context) (d : VarDecl) : Moves (Schedules P L) (localVariables ctx d) :=
  moves_schedulesNothing (moves_localVariables (moves_expr works_demand ctx) d)
    (moves_localVariables (moves_expr moves_demand ctx) d)

/-- A declaration whose procedure, if it is one, has its body in `P` and its link name in `L`. -/
def Admits (P : Block → Prop) (L : List String) (d : Decl) : Prop :=
  ∀ p, d = .proc p → (∀ b, p.body = some b → P b) ∧ p.ownLinks ⊆ L

theorem schedules_declStmt {ctx : Context} (hc : ctx.AtTop) (hd : Admits P L d) :
    Moves (Schedules P L) (declStmt ctx d) := by
  have htype (d : TypeDecl) (scope : ScopeId) : Moves (Schedules P L) (declareType d scope) :=
    schedules_enters (.type d) rfl
  have hconsts (d : ConstDecl) (scope : ScopeId) : Moves (Schedules P L) (declareConstants d scope) :=
    schedules_enters (.consts d) rfl
  cases d with
  | vars d => exact schedules_localVariables ctx d
  | consts d =>
    unfold declStmt
    dsimp only
    split
    · exact moves_pure _
    · exact moves_read (fun _ _ => rfl) fun s => by grind
  | type d => exact moves_read (fun _ _ => rfl) fun s => by grind
  | proc d =>
    obtain ⟨hbody, hlinks⟩ := hd d rfl
    refine moves_schedules (moves_declStmt hc (.proc d)) (moves_declStmt hc (.proc d)) fun {s a t} hrun hroom hs => ?_
    obtain ⟨e, s₁, hdeclare, hdemand⟩ := bind_eq_ok.mp hrun
    exact progress_declareProc hbody hlinks hdeclare hdemand hroom hs
  | imported d => exact moves_report rfl

theorem schedules_enterHoisted (scope : ScopeId) (stmts : List Stmt) :
    Moves (Schedules P L) (enterHoisted scope stmts) := by
  have htype (d : TypeDecl) (scope : ScopeId) : Moves (Schedules P L) (declareType d scope) :=
    schedules_enters (.type d) rfl
  have hconsts (d : ConstDecl) (scope : ScopeId) : Moves (Schedules P L) (declareConstants d scope) :=
    schedules_enters (.consts d) rfl
  fun_induction enterHoisted scope stmts <;> grind

instance : Proceeds (Schedules P L) (Admits P L) where
  complain s d hd := .of_eq (AllowsAll.complain s d hd) (.report s d hd) rfl rfl rfl
  decl _ _ hc hd := schedules_declStmt hc hd
  hoist ctx stmts hc _ := by
    have henter := schedules_enterHoisted (P := P) (L := L) ctx.scope stmts
    unfold hoistAll
    grind

/-! ## Rounds -/

section

variable {config : Config} {procs : List ProcDecl} {s t : Pass}

theorem admits_of_inside (h : d.Inside procs depth) :
    Admits (Block.Inside procs depth) (procs.flatMap ProcDecl.ownLinks) d := by
  rintro p rfl
  have hp : p ∈ procs := h.procs (by simp [Decl.procs_proc])
  exact ⟨fun b hb => h.body hb, fun name hname => List.mem_flatMap.mpr ⟨p, hp, hname⟩⟩

/-- Bodies that are nested to some depth at most queue bodies that are nested less deeply. -/
theorem schedules_bodies {bs : List Body} (hbs : ∀ b ∈ bs, b.block.Inside procs (depth + 1)) :
    Moves (Schedules (Block.Inside procs depth) (procs.flatMap ProcDecl.ownLinks)) (bodies config bs) := by
  refine moves_bodies (D := Admits (Block.Inside procs depth) (procs.flatMap ProcDecl.ownLinks)) fun b hb d hd => ?_
  obtain ⟨hprocs, hnesting⟩ := hbs b hb
  exact admits_of_inside ((Block.inside_of_mem hd).mono hprocs (by omega))

/-- Each round empties the queue and fills it with bodies that are nested less deeply, so the last one leaves it
empty. -/
theorem drained_drain {rounds : Nat} (hrun : drain config rounds s = .ok () t) (hroom : ¬ t.collector.isFatal)
    (hs : s.Orderly) (hqueue : ∀ b ∈ s.queue, b.block.Inside procs rounds) :
    t.queue = [] ∧ ∃ new, t.links = s.links ++ new ∧ ∀ p ∈ new, p.1 ∈ procs.flatMap ProcDecl.ownLinks := by
  induction rounds generalizing s with
  | zero =>
    cases hrun
    refine ⟨List.eq_nil_iff_forall_not_mem.mpr fun b hb => ?_, [], by simp, by simp⟩
    simpa using (hqueue b hb).nesting
  | succ rounds ih =>
    replace hrun := rest_of_ok rfl hrun
    obtain ⟨_, s₂, hbodies, hrun⟩ := bind_eq_ok.mp hrun
    have hlog : LogGrows s₂ t := (moves_drain config rounds).ok hrun
    have hscheduled := (schedules_bodies hqueue).ok hbodies
    have hempty : Pass.Orderly { s with queue := [] } := hs.grows (AllowsAll.dequeue s) rfl
    obtain ⟨horderly, ⟨queued, hqueued, hinside⟩, ⟨new, hlinks, hnew⟩⟩ :=
      hscheduled.progress hempty fun hfatal => hroom (hlog.isFatal hfatal)
    obtain ⟨hdone, new', hlinks', hnew'⟩ := ih hrun horderly (by simpa [hqueued] using hinside)
    exact ⟨hdone, new ++ new', by rw [hlinks', hlinks, List.append_assoc], List.forall_mem_append.mpr ⟨hnew, hnew'⟩⟩

/-- A job ends with an empty queue, and claims only link names of procedures inside its body. -/
theorem drained_bodyAndNested {b : Body} (hrun : bodyAndNested config b s = .ok () t)
    (hroom : ¬ t.collector.isFatal) (hs : s.Orderly) (hqueue : s.queue = []) :
    t.queue = [] ∧ ∃ new, t.links = s.links ++ new ∧ ∀ p ∈ new, p.1 ∈ b.block.procs.flatMap ProcDecl.ownLinks := by
  obtain ⟨_, s₁, hbody, hrun⟩ := bind_eq_ok.mp hrun
  have hmoves : Moves (Schedules (Block.Inside b.block.procs b.block.nesting)
      (b.block.procs.flatMap ProcDecl.ownLinks)) (body config b) :=
    moves_body (D := Admits _ (b.block.procs.flatMap ProcDecl.ownLinks)) fun d hd =>
      admits_of_inside (Block.inside_of_mem hd)
  have hlog : LogGrows s₁ t := (moves_drain config _).ok hrun
  obtain ⟨horderly, ⟨queued, hqueued, hinside⟩, ⟨new, hlinks, hnew⟩⟩ :=
    (hmoves.ok hbody).progress hs fun hfatal => hroom (hlog.isFatal hfatal)
  obtain ⟨hdone, new', hlinks', hnew'⟩ := drained_drain hrun hroom horderly (by simpa [hqueued, hqueue] using hinside)
  exact ⟨hdone, new ++ new', by rw [hlinks', hlinks, List.append_assoc], List.forall_mem_append.mpr ⟨hnew, hnew'⟩⟩

end

end Check

end Statics
