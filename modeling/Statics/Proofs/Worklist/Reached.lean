import Mathlib.Data.List.Nodup
import Statics.Proofs.Journal.Programs

/-!
# Procedures that statements reach

Not every procedure that stands in a body is declared by its check: what is deferred must not be a declaration, nor
what follows each turn of a loop, and only a block or another condition may follow `else`. `Stmt.reached` lists the
procedures that are declared, and `Check.brings_stmts` says that a statement enters exactly these.

Each of them is checked where it is declared. So a body queues exactly the bodies of the procedures that it reaches,
and exactly their link names are claimed: `Check.reaches_bodies`.
-/

namespace Statics

variable {b : Body}

/-! ## Reached procedures -/

mutual

/-- The procedures that are declared when a statement is checked, without those in their bodies. -/
def Stmt.reached : Stmt → List ProcDecl
  | .decl (.proc d) => [d]
  | .block body => Block.reached body
  | .branchOn _ init _ body otherwise => Stmt.reachedOption init ++ (Block.reached body ++ Stmt.reachedElse otherwise)
  | .loop _ _ init _ post body => Stmt.reachedOption init ++ (Stmt.reachedPost post ++ Block.reached body)
  | .switch _ _ init _ clauses => Stmt.reachedOption init ++ Clause.reachedList clauses
  | .typeSwitch _ _ _ _ clauses => Clause.reachedList clauses
  | .defer _ s => if Check.isDecl s then [] else Stmt.reached s
  | _ => []

@[inherit_doc Stmt.reached]
def Stmt.reachedOption : Option Stmt → List ProcDecl
  | none => []
  | some s => Stmt.reached s

/-- The procedures that are declared after each turn of a loop: a declaration may not stand there. -/
def Stmt.reachedPost : Option Stmt → List ProcDecl
  | none => []
  | some s => if Check.isDecl s then [] else Stmt.reached s

/-- The procedures that are declared after `else`: only some statements may stand there. -/
def Stmt.reachedElse : Option Stmt → List ProcDecl
  | none => []
  | some s => if Check.isElse s then Stmt.reached s else []

@[inherit_doc Stmt.reached]
def Stmt.reachedList : List Stmt → List ProcDecl
  | [] => []
  | s :: rest => Stmt.reached s ++ Stmt.reachedList rest

/-- The procedures that are declared when a block is checked, without those in their bodies. -/
def Block.reached : Block → List ProcDecl
  | ⟨_, _, _, stmts⟩ => Stmt.reachedList stmts

/-- The procedures that are declared when clauses are checked, without those in their bodies. -/
def Clause.reachedList : List Clause → List ProcDecl
  | [] => []
  | ⟨_, _, stmts⟩ :: rest => Stmt.reachedList stmts ++ Clause.reachedList rest

end

theorem Block.reached_eq (b : Block) : b.reached = Stmt.reachedList b.stmts := by
  cases b
  simp [Block.reached]

/-! ## Entering procedures -/

/-- A pass entered no procedure. -/
def EntersPlainly (s t : Pass) : Prop := ∃ new, t.decls = new ++ s.decls ∧ procsOf new = []

namespace EntersPlainly

variable {s t u : Pass}

theorem of_eq (h : t.decls = s.decls) : EntersPlainly s t := ⟨[], h, rfl⟩

theorem trans (h : EntersPlainly s t) (h' : EntersPlainly t u) : EntersPlainly s u := by
  obtain ⟨new, hdecls, hnone⟩ := h
  obtain ⟨new', hdecls', hnone'⟩ := h'
  exact ⟨new' ++ new, by rw [hdecls', hdecls, List.append_assoc],
    by rw [procsOf_append, hnone, hnone', List.append_nil]⟩

instance : Binds EntersPlainly := .of_idle (R := Pass.Grows) (fun _ _ hst => of_eq hst.decls) trans

instance : Demands EntersPlainly where
  annotate _ _ _ := of_eq rfl
  newType _ _ _ _ := of_eq rfl
  fillEnum _ _ _ _ _ h := h
  settle _ _ _ _ _ := of_eq rfl
  claimSymbol _ _ := of_eq rfl
  stopNamed _ _ _ _ _ h := h
  fillNamed _ _ _ _ _ h := h
  record _ _ := of_eq rfl
  claimLink _ _ := of_eq rfl
  enqueue _ _ := of_eq rfl

instance : Prepares EntersPlainly where
  newWaiting _ _ _ := of_eq rfl
  hoist _ _ := of_eq rfl

instance : Evaluates EntersPlainly where
  expr ctx reading e _ := Check.moves_expr Check.moves_demand ctx reading e
  demand ctx e _ := Check.moves_demand ctx e

end EntersPlainly

namespace Check

variable {α β : Type}

/-- A run that completes enters the given procedures, each as often as it is given. -/
def Brings (procs : List ProcDecl) (x : Check α) : Prop :=
  ∀ s a t, x s = .ok a t → ∃ new, t.decls = new ++ s.decls ∧ (procsOf new).Perm procs

theorem Moves.brings {x : Check α} (hx : Moves EntersPlainly x) : Brings [] x := by
  intro s a t h
  obtain ⟨new, hdecls, hnone⟩ := hx.ok h
  exact ⟨new, hdecls, by rw [hnone]⟩

theorem Brings.bind {x : Check α} {f : α → Check β} {procs procs' : List ProcDecl} (hx : Brings procs x)
    (hf : ∀ a, Brings procs' (f a)) : Brings (procs ++ procs') (x >>= f) := by
  intro s b u h
  obtain ⟨a, t, hxs, hft⟩ := bind_eq_ok.mp h
  obtain ⟨new, hdecls, hprocs⟩ := hx s a t hxs
  obtain ⟨new', hdecls', hprocs'⟩ := hf a t b u hft
  refine ⟨new' ++ new, by rw [hdecls', hdecls, List.append_assoc], ?_⟩
  rw [procsOf_append]
  exact (hprocs'.append hprocs).trans List.perm_append_comm

/-- A step that enters no procedure comes first. -/
theorem brings_after {x : Check α} {f : α → Check β} {procs : List ProcDecl} (hx : Moves EntersPlainly x)
    (hf : ∀ a, Brings procs (f a)) : Brings procs (x >>= f) := hx.brings.bind hf

theorem brings_pure (a : α) : Brings [] (pure a : Check α) := (moves_pure a).brings

theorem plainly_report (token : Token) (p : Problem) : Moves EntersPlainly (report token p) :=
  moves_anyReport (fun _ _ _ => .of_eq rfl) token p

theorem plainly_enters {decl : Decl} {scope : ScopeId} {ids : α → List EntityId} {x : Check α}
    (h : decl.Enters scope ids x) (hnone : (Stmt.decl decl).ownProcs = []) : Moves EntersPlainly x :=
  h.moves_along fun {r _ e} hkeeps => by
    obtain ⟨name, -, hk⟩ := hkeeps.name
    exact ⟨[(e, r.decl)], rfl, (procsOf_of_keeps hk e).trans hnone⟩

theorem plainly_constants (scope : ScopeId) (d : ConstDecl) : Moves EntersPlainly (declareConstants d scope) :=
  plainly_enters (.consts d) rfl

theorem plainly_typeName (scope : ScopeId) (d : TypeDecl) : Moves EntersPlainly (declareType d scope) :=
  plainly_enters (.type d) rfl

theorem brings_hoistAll {ctx : Context} (hc : ctx.AtTop) (stmts : List Stmt) :
    Moves EntersPlainly (hoistAll ctx stmts) := by
  have hconstants := plainly_constants
  have htype := plainly_typeName
  have henter : Moves EntersPlainly (enterHoisted ctx.scope stmts) := by
    fun_induction enterHoisted ctx.scope stmts <;> grind
  unfold hoistAll
  grind

theorem brings_declStmt {ctx : Context} (hc : ctx.AtTop) (d : Decl) :
    Brings (Stmt.reached (.decl d)) (declStmt ctx d) := by
  cases d with
  | proc d =>
    rw [Stmt.reached]
    intro s a u h
    obtain ⟨e, t, hdeclare, hdemand⟩ := bind_eq_ok.mp h
    obtain ⟨new, hdecls, hnone⟩ : EntersPlainly t u := (moves_resolve hc e).ok hdemand
    obtain ⟨new', hlists, hprocs, -⟩ := registered_enters (.proc d) hdeclare
    refine ⟨new ++ new', by rw [hdecls, hlists.decls, List.append_assoc], ?_⟩
    rw [procsOf_append, hnone]
    exact hprocs
  | vars d =>
    simp only [Stmt.reached]
    exact (moves_localVariables (fun reading e => moves_evaluate hc reading e) d).brings
  | consts d =>
    simp only [Stmt.reached]
    refine Moves.brings ?_
    have hconstants := plainly_constants
    unfold declStmt
    dsimp only
    split
    · exact moves_pure _
    · exact moves_read (fun _ _ => rfl) fun s => by grind
  | type d =>
    have htype := plainly_typeName
    simp only [Stmt.reached]
    exact Moves.brings (moves_read (fun _ _ => rfl) fun s => by grind)
  | imported d =>
    simp only [Stmt.reached]
    exact (plainly_report ..).brings

/-- A statement enters the procedures that it reaches. -/
theorem brings_stmts :
    (∀ (ctx : Context) allowed s, ctx.AtTop → Brings s.reached (stmt ctx allowed s)) ∧
    (∀ (ctx : Context) allowed union binder seen clauses, ctx.AtTop →
      Brings (Clause.reachedList clauses) (variantClauses ctx allowed union binder seen clauses)) ∧
    (∀ (ctx : Context) allowed stmts, ctx.AtTop → Brings (Stmt.reachedList stmts) (stmtsInOrder ctx allowed stmts)) ∧
    (∀ (ctx : Context) allowed tag seen clauses, ctx.AtTop →
      Brings (Clause.reachedList clauses) (switchClauses ctx allowed tag seen clauses)) ∧
    (∀ (ctx : Context) post, ctx.AtTop → Brings (Stmt.reachedPost post) (postStmt ctx post)) ∧
    (∀ (ctx : Context) allowed otherwise, ctx.AtTop →
      Brings (Stmt.reachedElse otherwise) (elseBranch ctx allowed otherwise)) ∧
    (∀ (ctx : Context) init, ctx.AtTop → Brings (Stmt.reachedOption init) (initial ctx init)) ∧
    (∀ (ctx : Context) allowed body, ctx.AtTop → Brings body.reached (block ctx allowed body)) := by
  apply stmt.mutual_induct
  -- Returns and jumps are reported for their places, and declarations enter procedures. The others follow their parts.
  case case12 =>
    intro ctx allowed token values hc
    simp only [stmt, Stmt.reached]
    exact (follows_returnStmt hc plainly_report (by simp)).brings
  case case15 =>
    intro ctx allowed token kind label hc
    simp only [stmt, Stmt.reached]
    exact (moves_jump plainly_report).brings
  case case17 =>
    intro ctx allowed d hc
    unfold stmt
    exact brings_declStmt hc d
  all_goals
    intros
    simp only [stmt, variantClauses, stmtsInOrder, switchClauses, postStmt, elseBranch, initial, block, Stmt.reached,
      Clause.reachedList, Stmt.reachedList, Stmt.reachedPost, Stmt.reachedElse, Stmt.reachedOption, Block.reached]
    grind [Brings.bind, brings_after, Moves.brings, plainly_report, brings_hoistAll]

theorem brings_body : Brings b.block.reached (body config b) := by
  have hc (scope : ScopeId) : (bodyContext config scope b).AtTop := ⟨rfl, rfl⟩
  rw [body_eq, Block.reached_eq]
  refine brings_after (moves_openBody _ _) fun (scope, params) => brings_after (moves_exposeParams ..) fun _ => ?_
  refine brings_after (brings_hoistAll (hc scope) _) fun _ => ?_
  have hlast := (brings_stmts.2.2.1 _ .none b.block.stmts (hc scope)).bind fun _ => (moves_missingReturn b).brings
  rwa [List.append_nil] at hlast

theorem brings_bodies {bs : List Body} : Brings (bs.flatMap fun b => b.block.reached) (bodies config bs) := by
  induction bs with
  | nil => exact brings_pure _
  | cons b rest ih => exact brings_body.bind fun _ => ih

end Check

/-! ## Which procedures are checked -/

theorem nodup_procEntries {decls : Pending} (h : (decls.map Prod.fst).Nodup) :
    (procEntries decls).Nodup := by
  refine List.Nodup.of_map Prod.fst (List.Nodup.sublist ?_ h)
  induction decls with
  | nil => exact .slnil
  | cons p rest ih =>
    have hrest := ih (List.nodup_cons.mp h).2
    rcases p with ⟨e, _ | _ | _ | ⟨scope, d⟩⟩
    · exact hrest.cons e
    · exact hrest.cons e
    · exact hrest.cons e
    · exact hrest.cons_cons e

theorem eq_of_mem_of_nodup {decls : Pending} (h : (decls.map Prod.fst).Nodup) {e : EntityId}
    {d d' : Declaration} (hd : (e, d) ∈ decls) (hd' : (e, d') ∈ decls) : d = d' := by
  have heq := List.inj_on_of_nodup_map h hd hd' rfl
  cases heq
  rfl

/-- Procedures are checked once they are entered, and only once, so those that were checked on the way from one state to
another are those that were entered. -/
theorem Performs.perm_procEntries {done new : Pending} {s t : Pass} (h : Performs done s t)
    (hdone : done ⊆ t.decls) (hdecls : t.decls = new ++ s.decls) (hs : s.Journaled []) (ht : t.Journaled [])
    (hkeys : (t.decls.map Prod.fst).Nodup)
    (hbefore : ∀ p ∈ procEntries s.decls, (s.store.arena.entity p.1).type.isSome)
    (hafter : ∀ p ∈ procEntries t.decls, (t.store.arena.entity p.1).type.isSome) :
    (procEntries done).Perm (procEntries new) := by
  have hfst : (done.map Prod.fst).Nodup := by
    refine List.nodup_iff_count_le_one.mpr fun e => ?_
    have hentered := h.entered e
    have honce := ht.once e
    omega
  have hnew : (procEntries new).Nodup := by
    rw [hdecls, List.map_append] at hkeys
    exact nodup_procEntries (List.nodup_append.mp hkeys).1
  -- An entity that has a type was entered.
  have hmark {u : Pass} (hu : u.Journaled []) {p : EntityId × ProcDecl} {scope : ScopeId}
    (hp : (p.1, .proc scope p.2) ∈ u.decls)
      (htyped : (u.store.arena.entity p.1).type.isSome) : 0 < u.journal.count (.enter p.1) :=
    List.count_pos_iff.mpr (hu.told (p.1, .proc scope p.2) hp (by simp) (.inl htyped))
  refine (List.perm_ext_iff_of_nodup (nodup_procEntries hfst) hnew).mpr fun p => ⟨fun hp => ?_, fun hp => ?_⟩
  · obtain ⟨scope, hmem⟩ := mem_procEntries.mp hp
    have hcount : 0 < (done.map Prod.fst).count p.1 := List.count_pos_iff.mpr (List.mem_map_of_mem hmem)
    have hentered := h.entered p.1
    have honce := ht.once p.1
    have hsplit := hdone hmem
    rw [hdecls, List.mem_append] at hsplit
    refine mem_procEntries.mpr ⟨scope, hsplit.resolve_right fun hold => ?_⟩
    have hpos := hmark hs hold (hbefore p (mem_procEntries.mpr ⟨scope, hold⟩))
    omega
  · obtain ⟨scope, hmem⟩ := mem_procEntries.mp hp
    have hkept : (p.1, .proc scope p.2) ∈ t.decls := hdecls ▸ List.mem_append_left _ hmem
    have hpos := hmark ht hkept (hafter p (mem_procEntries.mpr ⟨scope, hkept⟩))
    have hzero : s.journal.count (.enter p.1) = 0 := by
      refine List.count_eq_zero.mpr fun henter => ?_
      have hold := (hs.entered p.1 henter).1
      rw [hdecls, List.map_append] at hkeys
      exact (List.nodup_append.mp hkeys).2.2 _ (List.mem_map_of_mem hmem) _ hold rfl
    have hentered := h.entered p.1
    obtain ⟨⟨e, d⟩, hd, heq⟩ :=
      List.mem_map.mp (List.count_pos_iff.mp (show 0 < (done.map Prod.fst).count p.1 by omega))
    cases heq
    cases eq_of_mem_of_nodup hkeys hkept (hdone hd)
    exact mem_procEntries.mpr ⟨scope, hd⟩

/-- From one point between bodies to another: the bodies of the given procedures were queued, and their link names were
claimed. -/
structure Reaches (procs : List ProcDecl) (s t : Pass) : Prop where
  orderly : t.Orderly
  journaled : t.Journaled []
  added : ∃ entries : List (EntityId × ProcDecl), (entries.map Prod.snd).Perm procs ∧
    (∀ p ∈ entries, p.1.slab = s.store.current.id) ∧
    t.queue.map Body.task = s.queue.map Body.task ++ tasksOf entries ∧
      t.links = s.links ++ claimsOf (entries.map Prod.snd)

namespace Check

variable {config : Config} {s t : Pass}

theorem reaches_of_brings {x : Check Unit} {procs : List ProcDecl} {P : Block → Prop} {L : List String}
    (hworks : Moves Works x) (haccounts : Moves Accounts x) (hschedules : Moves (Schedules P L) x)
    (hbrings : Brings procs x) (h : x s = .ok () t) (hroom : ¬ s.collector.isFatal) (hs : s.Orderly)
    (hj : s.Journaled []) : Reaches procs s t := by
  have hroom' := hworks.traced.room h hroom
  obtain ⟨hdeclared, hj'⟩ := (haccounts.ok h).keeps hs.declared hj
  have hs' := ((hschedules.ok h).progress hs hroom').orderly
  obtain ⟨new, hdecls, hnew⟩ := hbrings s () t h
  obtain ⟨pending, hpending, hexecutes⟩ := hworks.ok h
  obtain ⟨done, hdone, hperforms⟩ := hexecutes.done hroom'
  have htyped {u : Pass} (hu : u.Orderly) : ∀ p ∈ procEntries u.decls, (u.store.arena.entity p.1).type.isSome := by
    intro p hp
    obtain ⟨scope, hmem⟩ := mem_procEntries.mp hp
    exact hu.typed p.1 scope p.2 hmem
  have hkept : done ⊆ t.decls := List.Subset.trans hdone hpending
  have hperm := hperforms.perm_procEntries hkept hdecls hj hj' hs'.keys (htyped hs) (htyped hs')
  refine ⟨hs', hj', procEntries done, ?_, fun p hp => ?_, hperforms.tasks, ?_⟩
  · have hprocs := hperm.map Prod.snd
    rw [map_snd_procEntries new] at hprocs
    exact hprocs.trans hnew
  · obtain ⟨scope, hmem⟩ := mem_procEntries.mp hp
    rw [← hexecutes.grows.store.id]
    exact (hdeclared _ (hkept hmem)).own.slab
  · rw [map_snd_procEntries]
    exact hperforms.links

/-- Bodies queue the bodies of the procedures that they reach, and claim their link names. -/
theorem reaches_bodies {bs : List Body} (h : bodies config bs s = .ok () t) (hroom : ¬ s.collector.isFatal)
    (hs : s.Orderly) (hj : s.Journaled []) : Reaches (bs.flatMap fun b => b.block.reached) s t := by
  let names := (bs.flatMap fun b => b.block.procs).flatMap ProcDecl.ownLinks
  have hadmits : ∀ b ∈ bs, ∀ d ∈ b.block.decls, Admits (fun _ => True) names d := by
    rintro b hb d hd p rfl
    have hp : p ∈ b.block.procs := (Block.inside_of_mem hd).procs (by simp [Decl.procs_proc])
    exact ⟨fun _ _ => trivial, fun name hname => List.mem_flatMap.mpr ⟨p, List.mem_flatMap.mpr ⟨b, hb, hp⟩, hname⟩⟩
  have hschedules : Moves (Schedules (fun _ => True) names) (bodies config bs) := moves_bodies hadmits
  exact reaches_of_brings (moves_bodies (D := fun _ => True) fun _ _ _ _ => trivial)
    (moves_bodies (D := fun _ => True) fun _ _ _ _ => trivial) hschedules brings_bodies h hroom hs hj

theorem bodies_singleton (config : Config) (b : Body) : bodies config [b] = body config b := by
  simp only [bodies, bind_pure_unit]

end Check

end Statics
