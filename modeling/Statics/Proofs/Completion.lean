import Mathlib.Tactic.Tauto
import Statics.Proofs.Worklist.Files

/-!
# Runs that leave nothing open

While declarations are checked, entities wait for their types and names of types for their bases. A run that does not
pass the cap on errors leaves none of this behind: `Closes s t` says that what is open after the run was open before
it.

Expressions and demands close what they open, and so do declarations of local variables. Everything else that is
entered without a type is demanded soon after: by the statement or list that entered it, and at file level in the turn
of its sort. So `Opens es s t`, where `es` were entered, is followed by a run that gives a type to all of `es`.
-/

namespace Statics

variable {e : EntityId} {ctx : Context} {es : List EntityId}

/-! ## What is open -/

/-- Every entity has a type, and every named type a base. -/
structure Arena.Complete (a : Arena) : Prop where
  typed : ∀ e, ¬ a.Untyped e
  based : ∀ t, ¬ a.OpenName t

theorem Ty.isOpenName_withBase (base : TypeId) (τ : Ty) : (τ.withBase base).isOpenName = false := by
  cases τ with
  | named name b e => rfl
  | _ => rfl

namespace Store

theorem untyped_modifyEntity (s : Store) {e' : EntityId} {f : Entity → Entity} (hf : ∀ x, Entity.Settles x (f x))
    (h : (s.modifyEntity e f).arena.Untyped e') : s.arena.Untyped e' := by
  obtain ⟨y, hy, htype⟩ := h
  rw [entity?_modifyEntity] at hy
  split at hy
  case isTrue =>
    obtain ⟨x, hx, rfl⟩ := Option.map_eq_some_iff.mp hy
    refine ⟨x, hx, Option.eq_none_iff_forall_ne_some.mpr fun u hu => ?_⟩
    rw [(hf x).type u hu] at htype
    cases htype
  case isFalse => exact ⟨y, hy, htype⟩

end Store

/-! ## Runs that close what they open -/

/-- Nothing is left open, unless the cap on errors was passed. -/
structure Closes (s t : Pass) : Prop where
  grows : s.Grows t
  log : LogGrows s t
  closed : s.Declared → ¬ t.collector.isFatal → t.Declared ∧ Opens [] s t

namespace Closes

variable {s t u : Pass}

theorem trans (h : Closes s t) (h' : Closes t u) : Closes s u where
  grows := h.grows.trans h'.grows
  log := h.log.trans h'.log
  closed hs hroom := by
    obtain ⟨hdeclared, hfirst⟩ := h.closed hs fun hfatal => hroom (h'.log.isFatal hfatal)
    obtain ⟨hdeclared', hrest⟩ := h'.closed hdeclared hroom
    exact ⟨hdeclared', hfirst.still hrest⟩

theorem of_opens (h : Opens [] s t) (hlog : LogGrows s t) (hd : t.decls = s.decls) : Closes s t :=
  ⟨h.grows, hlog, fun hs _ => ⟨hs.grows h.grows hd, h⟩⟩

theorem of_store_eq (hg : s.Grows t) (hlog : LogGrows s t) (hd : t.decls = s.decls) (h : t.store = s.store) :
    Closes s t :=
  of_opens (.of_store_eq hg h) hlog hd

instance : ReadsFiles Closes := .of_idle (fun h hlog hst => of_opens h hlog hst.decls) trans

instance : Observes Closes := .of_idle (fun h hlog hst => of_opens h hlog hst.decls) trans

/-- A type that was allocated before a run is filled in after it. -/
theorem fill {τ : Ty} {f : Ty → Ty} (h : Closes { s with store := (s.store.newType τ).2 } u)
    (hf : ∀ σ, (f σ).isOpenName = false) :
    Closes s { u with store := u.store.modifyType (s.store.newType τ).1 f } := by
  have hnew : s.Grows { s with store := (s.store.newType τ).2 } := .of_store (.newType s.store τ)
  have hg : s.Grows { u with store := u.store.modifyType (s.store.newType τ).1 f } :=
    ⟨h.grows.store.fill f, h.grows.decls, h.grows.notes⟩
  refine ⟨hg, h.log, fun hs hroom => ?_⟩
  obtain ⟨hdeclared, hopens⟩ := h.closed (hs.grows hnew rfl) hroom
  refine ⟨fun p hp => ?_, hg, fun e he => ?_, fun v hv => ?_⟩
  · have hsuits := hdeclared p hp
    exact ⟨hsuits.own.modifyType _ f, fun v hv => (hsuits.vars v hv).modifyType _ f, hsuits.among⟩
  · obtain ⟨x, hx, htype⟩ := he
    have hbefore := hopens.untyped e ⟨x, (u.store.entity?_modifyType _ f e).symm.trans hx, htype⟩
    exact .inl (s.store.untyped_newType (hbefore.resolve_right (by simp)))
  · obtain ⟨σ, hσ, hopen⟩ := hv
    rw [Store.type?_modifyType] at hσ
    split at hσ
    case isTrue =>
      obtain ⟨ρ, -, rfl⟩ := Option.map_eq_some_iff.mp hσ
      simp [hf] at hopen
    case isFalse hv =>
      have hslab : (s.store.newType τ).1.slab = u.store.current.id := h.grows.store.id.symm
      have hold := s.store.openName_newType (hopens.names v ⟨σ, hσ, hopen⟩)
      exact hold.resolve_right fun h => hv ⟨hslab, h.1⟩

/-- A run that stops may leave a name without its base. -/
theorem stopNamed {name : String} (hfatal : u.collector.isFatal)
    (h : Closes { s with store := (s.store.newType (.named name none e)).2 } u) : Closes s u :=
  ⟨NamesTypes.stopNamed s u name e hfatal h.grows, NamesTypes.stopNamed s u name e hfatal h.log,
    fun _ hroom => absurd hfatal hroom⟩

instance : Demands Closes where
  newType s _ _ hopen := of_opens (.newType s hopen) (.of_collector_eq rfl) rfl
  fillEnum _ _ _ _ _ h := h.fill fun _ => rfl
  settle s e f he hf := of_opens (.of_entities (Settles.settle s e f he hf) (fun _ => s.store.untyped_modifyEntity hf)
    (s.store.type?_modifyEntity e f)) (Settles.settle s e f he hf) rfl
  claimSymbol s p := of_store_eq (Settles.claimSymbol s p) (Settles.claimSymbol s p) rfl rfl
  stopNamed _ _ _ _ := stopNamed
  fillNamed _ _ _ _ base h := h.fill (Ty.isOpenName_withBase base)
  record s m := of_store_eq (Records.record s m) (Records.record s m) rfl rfl
  claimLink s p := of_store_eq (Demands.claimLink s p) (Demands.claimLink s p) rfl rfl
  enqueue s b := of_store_eq (Demands.enqueue s b) (Demands.enqueue s b) rfl rfl

instance : Frames Closes where
  expr ctx reading e _ := Check.moves_expr Check.moves_demand ctx reading e
  demand ctx e _ := Check.moves_demand ctx e
  dequeue s := of_store_eq (Frames.dequeue s) (Frames.dequeue s) rfl rfl

end Closes

/-! ## Entering declarations -/

namespace Check

variable {s t u : Pass} {scope : ScopeId}

section

variable {es : List EntityId} {procs : List ProcDecl} (h : Registered es procs s t)

include h

theorem Registered.opens : Opens es s t := by
  obtain ⟨new, hnew, -, hperm⟩ := h
  exact (hnew.toAllots.perm hperm).toOpens

/-- Entities that were entered wait for their declarations to be checked. -/
theorem Registered.waiting : ∀ e ∈ es, e ∈ t.decls.map Prod.fst := by
  obtain ⟨new, hnew, -, hperm⟩ := h
  intro e he
  rw [hnew.decls, List.map_append]
  exact List.mem_append_left _ (hperm.mem_iff.mpr he)

end

theorem registered_enterHoisted {stmts : List Stmt} {types constants : List EntityId}
    (h : enterHoisted scope stmts s = .ok (types, constants) t) : Registered (types ++ constants) [] s t := by
  fun_induction enterHoisted scope stmts generalizing s types constants with
  | case1 =>
    cases h
    exact registered_nil (Reports.refl _)
  | case2 d rest ih =>
    obtain ⟨e, s₁, htype, h⟩ := bind_eq_ok.mp h
    obtain ⟨⟨types', constants'⟩, s₂, hrest, h⟩ := bind_eq_ok.mp h
    cases h
    exact (registered_enters (.type d) htype).trans (ih hrest)
  | case3 d rest ih =>
    obtain ⟨es, s₁, hconstants, h⟩ := bind_eq_ok.mp h
    obtain ⟨⟨types', constants'⟩, s₂, hrest, h⟩ := bind_eq_ok.mp h
    cases h
    obtain ⟨new, hnew, hprocs, hperm⟩ := (registered_enters (.consts d) hconstants).trans (ih hrest)
    refine ⟨new, hnew, hprocs, hperm.trans ?_⟩
    rw [← List.append_assoc, ← List.append_assoc]
    exact List.perm_append_comm.append_right _
  | case4 stmt rest _ _ ih => exact ih h

/-! ## Declarations as statements -/

/-- A run that stops has too many errors, so only runs that complete count. -/
theorem moves_closes {α : Type} {x : Check α} (hgrows : Moves Pass.Grows x) (hlog : Moves LogGrows x)
    (h : ∀ {s a t}, x s = .ok a t → s.Declared → ¬ t.collector.isFatal → t.Declared ∧ Opens [] s t) :
    Moves Closes x where
  along s := by
    refine ⟨hgrows.along s, hlog.along s, fun hs hroom => ?_⟩
    cases hrun : x s with
    | ok a t =>
      rw [after_of_ok hrun] at hroom ⊢
      exact h hrun hs hroom
    | error stop t =>
      rw [after_of_error hrun] at hroom
      exact absurd (hgrows.fatal hrun) hroom
  traced := hgrows.traced

/-- Entities that wait for declarations have types once all of them were demanded. -/
theorem typed_demandAll (hc : ctx.AtTop) (h : demandAll ctx es s = .ok () t) (hroom : ¬ t.collector.isFatal)
    (hdeclared : s.Declared) (hwaiting : ∀ e ∈ es, e ∈ s.decls.map Prod.fst) : ∀ e ∈ es,
    (t.store.arena.entity e).type.isSome := by
  induction es generalizing s with
  | nil => simp
  | cons e rest ih =>
    obtain ⟨_, s₁, hdemand, hdemands⟩ := bind_eq_ok.mp h
    have hfirst : Closes s s₁ := (moves_resolve hc e).ok hdemand
    have hrest : Closes s₁ t := (moves_demandAll hc).ok hdemands
    have hroom₁ : ¬ s₁.collector.isFatal := fun hfatal => hroom (hrest.log.isFatal hfatal)
    have hdeclared₁ := (hfirst.closed hdeclared hroom₁).1
    rw [List.forall_mem_cons] at hwaiting ⊢
    obtain ⟨⟨_, d⟩, hmem, rfl⟩ := List.mem_map.mp hwaiting.1
    refine ⟨hrest.grows.isSome_type (typed_demand hdemand hdeclared hmem), ih hdemands hdeclared₁ fun e' he' => ?_⟩
    exact (hfirst.grows.decls.map Prod.fst).subset (hwaiting.2 e' he')

/-- What is entered and then demanded is not left open. -/
theorem closes_demandEntered {α : Type} (hc : ctx.AtTop) {enter : Check α} {E : α → List EntityId}
    (hlog : Moves LogGrows enter) (hdeclared : Moves KeepsDeclared enter)
    (hentered : ∀ {s a t}, enter s = .ok a t → ∃ procs, Registered (E a) procs s t) : Moves Closes (do
      let a ← enter
      demandAll ctx (E a)) := by
  have hgrows : Moves Pass.Grows enter := hdeclared.mono fun _ _ h => h.grows
  refine moves_closes (moves_bind hgrows fun _ => moves_demandAll hc) (moves_bind hlog fun _ => moves_demandAll hc) ?_
  intro s _ t h hs hroom
  obtain ⟨a, s₁, henter, hdemand⟩ := bind_eq_ok.mp h
  have hs₁ := (hdeclared.ok henter).declared hs
  obtain ⟨procs, hentered⟩ := hentered henter
  have hdemanded : Closes s₁ t := (moves_demandAll hc).ok hdemand
  obtain ⟨ht, hopens⟩ := hdemanded.closed hs₁ hroom
  exact ⟨ht, hentered.opens.settled hopens (typed_demandAll hc hdemand hroom hs₁ hentered.waiting)⟩

theorem closes_localVariables (hc : ctx.AtTop) (d : VarDecl) : Moves Closes (localVariables ctx d) := by
  have hx := fun reading e => Evaluates.expr (R := Closes) ctx reading e hc
  refine moves_closes (DeclaresLocals.locals ctx d hc) (DeclaresLocals.locals ctx d hc) ?_
  intro s _ t h hs hroom
  obtain ⟨es, s₁, hnew, h⟩ := bind_eq_ok.mp h
  obtain ⟨_, s₂, hread, h⟩ := bind_eq_ok.mp h
  have hs₁ : s₁.Declared := (moves_newVariables.ok hnew : KeepsDeclared s s₁).declared hs
  have htypes (e : EntityId) (he : e ∈ es) : (s₂.store.arena.entity e).type.isSome :=
    (types_varDecl moves_demand ctx he).typed hread (owns_newVariables hnew e he)
  have hreads : Closes s₁ s₂ := (moves_varDecl hx (fun _ _ => trivial) d.type d.values).ok hread
  have hbind : Moves Closes (do
      bindVariables ctx.scope (d.names.zip es)
      if d.exposes then exposeVariables ctx.scope es) := by grind
  have hbinds := hbind.ok h
  obtain ⟨hs₂, hopens⟩ := hreads.closed hs₁ fun hfatal => hroom (hbinds.log.isFatal hfatal)
  obtain ⟨ht, hopens'⟩ := hbinds.closed hs₂ hroom
  exact ⟨ht, ((allots_newVariables hnew).1.toOpens.settled hopens htypes).still hopens'⟩

theorem demandAll_singleton (ctx : Context) (e : EntityId) : demandAll ctx [e] = demand ctx e := by
  simp only [demandAll, bind_pure_unit]

theorem closes_declStmt (hc : ctx.AtTop) (d : Decl) : Moves Closes (declStmt ctx d) := by
  have henters {α : Type} {d : Decl} {ids : α → List EntityId} {x : Check α} (h : d.Enters ctx.scope ids x) :=
    closes_demandEntered hc (E := ids) (Registers.register h) (Registers.register h) fun hrun =>
      ⟨_, registered_enters h hrun⟩
  have htype := fun d => henters (.type d)
  have hproc := fun d => henters (.proc d)
  simp only [demandAll_singleton] at htype hproc
  cases d with
  | vars d => exact closes_localVariables hc d
  | consts d =>
    unfold declStmt
    dsimp only
    split
    · exact moves_pure _
    · refine moves_read (fun _ _ => rfl) fun s => ?_
      split
      · exact moves_pure _
      · exact henters (.consts d)
  | type d =>
    refine moves_read (fun _ _ => rfl) fun s => ?_
    split
    · exact moves_pure _
    · exact htype d
  | proc d => exact hproc d
  | imported d => exact moves_report rfl

theorem closes_hoistAll (hc : ctx.AtTop) (stmts : List Stmt) : Moves Closes (hoistAll ctx stmts) :=
  closes_demandEntered hc (E := fun p : List EntityId × List EntityId => p.1 ++ p.2) (moves_enterHoisted)
    moves_enterHoisted fun h => ⟨_, registered_enterHoisted h⟩

instance : Proceeds Closes fun _ => True where
  complain s d hd := .of_store_eq (AllowsAll.complain s d hd) (.report s d hd) rfl rfl
  decl _ d hc _ := closes_declStmt hc d
  hoist _ stmts hc _ := closes_hoistAll hc stmts

/-! ## Files -/

end Check

/-- The turn in which a declaration is checked. -/
def Declaration.turn : Declaration → Check.Turn
  | .constant .. => .constants
  | .vars .. => .vars
  | .type .. => .types
  | .proc .. => .procedures

/-- The turn of an entity is that of its declaration. -/
theorem Declaration.Suits.turn?_eq {d : Declaration} {s : Store} (h : d.Suits s e) : Check.turn? (s.arena.entity e) =
    some d.turn := by
  have hsort := h.own.kind
  cases d <;> cases hkind : (s.arena.entity e).kind <;>
    simp_all [Check.turn?, Declaration.turn, Declaration.sort, EntityKind.name]

namespace Check

variable {s t : Pass}

/-- Entities have types once it was the turn of their declarations. -/
theorem typed_demandTurn (hc : ctx.AtTop) {turn : Turn} (h : demandTurn ctx turn es s = .ok () t)
    (hroom : ¬ t.collector.isFatal) (hdeclared : s.Declared) : ∀ e ∈ es, ∀ d, (e, d) ∈ s.decls → d.turn = turn →
    (t.store.arena.entity e).type.isSome := by
  induction es generalizing s with
  | nil => simp
  | cons e rest ih =>
    obtain ⟨x, s₁, hentity, hrun⟩ := bind_eq_ok.mp h
    cases hentity
    have hrest {s₁ : Pass} (hfirst : Closes s s₁) (hdemands : demandTurn ctx turn rest s₁ = .ok () t) :
        ∀ e ∈ rest, ∀ d, (e, d) ∈ s.decls → d.turn = turn → (t.store.arena.entity e).type.isSome := by
      intro e he d hd
      have hlater : Closes s₁ t := (moves_demandTurn hc).ok hdemands
      have hdeclared₁ := (hfirst.closed hdeclared fun hfatal => hroom (hlater.log.isFatal hfatal)).1
      exact ih hdemands hdeclared₁ e he d (hfirst.grows.decls.subset hd)
    rw [List.forall_mem_cons]
    split at hrun
    case isTrue =>
      obtain ⟨_, s₁, hdemand, hdemands⟩ := bind_eq_ok.mp hrun
      have hlater : Closes s₁ t := (moves_demandTurn hc).ok hdemands
      exact ⟨fun d hd _ => hlater.grows.isSome_type (typed_demand hdemand hdeclared hd),
        hrest ((moves_resolve hc e).ok hdemand) hdemands⟩
    case isFalse hturn =>
      refine ⟨fun d hd hd' => ?_, hrest (Reports.refl s) hrun⟩
      simp [(hdeclared (e, d) hd).turn?_eq, hd'] at hturn

/-- What waits for a turn has a type from then on. -/
theorem typed_sinceTurn {s₁ s₂ : Pass} (hc : ctx.AtTop) {turn : Turn} (hbefore : Closes s s₁)
    (h : demandTurn ctx turn es s₁ = .ok () s₂) (hafter : Closes s₂ t) (hroom : ¬ t.collector.isFatal)
    (hdeclared : s.Declared) (he : e ∈ es) {d : Declaration} (hd : (e, d) ∈ s.decls) (hturn : d.turn = turn) :
    (t.store.arena.entity e).type.isSome := by
  have hdemands : Closes s₁ s₂ := (moves_demandTurn hc).ok h
  have hroom₂ : ¬ s₂.collector.isFatal := fun hfatal => hroom (hafter.log.isFatal hfatal)
  have hdeclared₁ := (hbefore.closed hdeclared fun hfatal => hroom₂ (hdemands.log.isFatal hfatal)).1
  exact hafter.grows.isSome_type
    (typed_demandTurn hc h hroom₂ hdeclared₁ e he d (hbefore.grows.decls.subset hd) hturn)

/-- The file level demands everything that it entered, each in its turn. -/
theorem opens_fileLevel {config : Config} {files : List File} (h : fileLevel config files s = .ok () t)
    (hdeclared : s.Declared) (hroom : ¬ t.collector.isFatal) : t.Declared ∧ Opens [] s t := by
  have hc := Context.AtTop.outer config .global
  obtain ⟨_, s₁, hopen, h⟩ := bind_eq_ok.mp h
  obtain ⟨es, s₂, hcollect, h⟩ := bind_eq_ok.mp h
  obtain ⟨_, s₃, hresolve, h⟩ := bind_eq_ok.mp h
  obtain ⟨_, s₄, htypes, h⟩ := bind_eq_ok.mp h
  obtain ⟨_, s₅, hconstants, h⟩ := bind_eq_ok.mp h
  obtain ⟨_, s₆, hprocedures, h⟩ := bind_eq_ok.mp h
  obtain ⟨_, s₇, hvars, h⟩ := bind_eq_ok.mp h
  have h₁ : Closes s s₁ := (moves_openFiles files).ok hopen
  have hcollected : LogGrows s₁ s₂ := moves_collectFiles.ok hcollect
  have h₂ : Closes s₂ s₃ := moves_resolveFiles.ok hresolve
  have h₃ : Closes s₃ s₄ := (moves_demandTurn hc).ok htypes
  have h₄ : Closes s₄ s₅ := (moves_demandTurn hc).ok hconstants
  have h₅ : Closes s₅ s₆ := (moves_demandTurn hc).ok hprocedures
  have h₆ : Closes s₆ s₇ := (moves_demandTurn hc).ok hvars
  have h₇ : Closes s₇ t := moves_entryPoint.ok h
  have hturns : Closes s₃ t := (h₃.trans h₄).trans ((h₅.trans h₆).trans h₇)
  -- The cap was not passed at the end, so it was not passed before.
  have hroom₃ : ¬ s₃.collector.isFatal := fun hfatal => hroom (hturns.log.isFatal hfatal)
  have hroom₁ : ¬ s₁.collector.isFatal := fun hfatal => hroom₃ (h₂.log.isFatal (hcollected.isFatal hfatal))
  obtain ⟨hs₁, hopened⟩ := h₁.closed hdeclared hroom₁
  have hs₂ : s₂.Declared := (moves_collectFiles.ok hcollect : KeepsDeclared s₁ s₂).declared hs₁
  obtain ⟨hs₃, hresolved⟩ := h₂.closed hs₂ hroom₃
  obtain ⟨ht, hchecked⟩ := hturns.closed hs₃ hroom
  have hentered := registered_collectFiles hcollect (lookup_openFiles hopen).1
  refine ⟨ht, hopened.trans ((hentered.opens.still hresolved).settled hchecked fun e he => ?_)⟩
  obtain ⟨⟨_, d⟩, hd, rfl⟩ := List.mem_map.mp (hentered.waiting e he)
  have hd := h₂.grows.decls.subset hd
  cases hturn : d.turn with
  | types => exact typed_sinceTurn hc (Reports.refl s₃) htypes (h₄.trans (h₅.trans (h₆.trans h₇))) hroom hs₃ he hd hturn
  | constants => exact typed_sinceTurn hc h₃ hconstants (h₅.trans (h₆.trans h₇)) hroom hs₃ he hd hturn
  | procedures => exact typed_sinceTurn hc (h₃.trans h₄) hprocedures (h₆.trans h₇) hroom hs₃ he hd hturn
  | vars => exact typed_sinceTurn hc ((h₃.trans h₄).trans h₅) hvars h₇ hroom hs₃ he hd hturn

end Check

end Statics
