import Statics.Proofs.Captures.Homes

/-!
# Variables stay housed

Expressions and demands bind nothing but new parameters, so they keep every variable housed, and leave the entities
that a declaration made without a home until it binds them. Of the routines that bind, each is looked at once: what
declarations bind is new, what `using` binds stands at file level or is no variable, and what a body binds are the
parameters of its signature.
-/

namespace Statics

variable {files : List File}

variable {b : Bool} {d : Declaration} {x : Entity} {e : EntityId} {entries : List (Ident × EntityId)}
  {es members : List EntityId} {names : List Ident} {ident : Option Ident} {scope : ScopeId} {token : Token}

/-- What is bound is housed, and files have scopes at file level. -/
structure Pass.Housed (s : Pass) : Prop where
  arena : s.store.arena.Housed
  files : ∀ p ∈ s.files, s.store.arena.IsFileLevel p.2

/-- A step that keeps variables housed, and gives no home to what was there. -/
structure Pass.Shelters (s t : Pass) : Prop where
  grows : s.Grows t
  arena : s.store.arena.Shelters t.store.arena
  files : t.files = s.files

namespace Pass.Shelters

variable {s t u : Pass}

theorem trans (h : s.Shelters t) (h' : t.Shelters u) : s.Shelters u :=
  ⟨h.grows.trans h'.grows, h.arena.trans h'.arena, h'.files.trans h.files⟩

theorem housed (h : s.Shelters t) (hs : s.Housed) : t.Housed where
  arena := h.arena.housed hs.arena
  files p hp := h.arena.stays.isFileLevel (hs.files p (h.files ▸ hp))

theorem of_store_eq (hg : s.Grows t) (h : t.store = s.store) (hf : t.files = s.files) : s.Shelters t :=
  ⟨hg, h ▸ .refl _, hf⟩

theorem newType (s : Pass) {τ : Ty} (hτ : τ.enumerated = []) : s.Shelters { s with store := (s.store.newType τ).2 } :=
  ⟨.of_store (.newType ..), s.store.shelters_newType hτ, rfl⟩

/-- A type that was allocated is filled in, with constants if it is an enum. -/
theorem fill {τ : Ty} {g : Ty → Ty} (hτ : τ.enumerated = [])
    (h : Pass.Shelters { s with store := (s.store.newType τ).2 } u)
    (hg : u.store.arena.Housed → ∀ τ', u.store.arena.type? (s.store.newType τ).1 = some τ' →
      ∀ m ∈ (g τ').enumerated, u.store.arena.IsConstant m) :
    s.Shelters { u with store := u.store.modifyType (s.store.newType τ).1 g } where
  grows := ⟨h.grows.store.fill _, h.grows.decls, h.grows.notes⟩
  arena := ((newType s hτ).arena.trans h.arena).trans (u.store.shelters_modifyType _ hg)
  files := h.files

theorem importName_of_settles {y : Entity} (h : x.Settles y) {info : ImportInfo}
    (hy : y.kind = .importName info) : x.kind = .importName info := by
  have hsort := h.kind
  rw [hy] at hsort
  cases hx : x.kind with
  | importName i => rw [← h.info i hx, hy]
  | _ => simp [hx, EntityKind.name] at hsort

theorem enumerated_withBase (base : TypeId) (τ : Ty) : (τ.withBase base).enumerated = τ.enumerated := by
  cases τ <;> rfl

instance : Demands Pass.Shelters where
  refl s := of_store_eq (.refl s) rfl rfl
  trans := trans
  report s d hd hk := of_store_eq (Reports.report s d hd hk) rfl rfl
  annotate s id note := of_store_eq (Observes.annotate s id note) rfl rfl
  refer s id e := of_store_eq (Remarks.refer s id e) rfl rfl
  define s id e := of_store_eq (Remarks.define s id e) rfl rfl
  markUsed s e := ⟨Remarks.markUsed s e, s.store.shelters_markUsed e, rfl⟩
  openScope s parent kind := ⟨Supplies.openScope s parent kind, s.store.shelters_openScope parent kind, rfl⟩
  noteScope s id scope := of_store_eq (Supplies.noteScope s id scope) rfl rfl
  newBound s scope x hord hx := ⟨Allocates.newBound s scope x hord hx, s.store.shelters_newBound scope hord hx, rfl⟩
  newEntity s x hx := ⟨Allocates.newEntity s x hx,
    s.store.shelters_newEntity fun _ info hkind => by simp [Entity.isOrdinary, hkind] at hx, rfl⟩
  newPointer s _ := newType s rfl
  newTuple s _ := newType s rfl
  newProc s _ _ := newType s rfl
  newType s _ hτ _ := newType s hτ
  fillEnum _ _ _ _ hm h :=
    h.fill rfl fun _ _ _ => hm fun _ _ _ hst => hst.arena.stays.isConstant
  settle s e g _ hg := ⟨Settles.settle s e g trivial hg, s.store.shelters_modifyEntity e fun x =>
    ⟨.of_settles (hg x), (hg x).home, fun _ => importName_of_settles (hg x)⟩, rfl⟩
  claimSymbol s p := of_store_eq (Settles.claimSymbol s p) rfl rfl
  fillNamed _ _ _ _ _ h := h.fill rfl fun ha τ' hτ' => by
    rw [enumerated_withBase]
    exact ha.enums _ τ' hτ'
  stopNamed s _ _ _ _ h := trans (newType s rfl) h
  record s m := of_store_eq (Records.record s m) rfl rfl
  claimLink s p := of_store_eq (Demands.claimLink s p) rfl rfl
  enqueue s b := of_store_eq (Demands.enqueue s b) rfl rfl

instance : OpensVariables Pass.Shelters where
  newVariable s token ident := ⟨OpensVariables.newVariable s token ident,
    s.store.shelters_newEntity fun _ info hkind => by simp [Entity.fresh] at hkind, rfl⟩

end Pass.Shelters

/-! ## Runs that do not stop -/

/-- Variables stay housed, unless the cap on errors was passed. -/
structure StaysHoused (s t : Pass) : Prop where
  log : LogGrows s t
  housed : s.Housed → ¬ t.collector.isFatal → t.Housed

namespace StaysHoused

variable {s t u : Pass}

theorem trans (h : StaysHoused s t) (h' : StaysHoused t u) : StaysHoused s u where
  log := h.log.trans h'.log
  housed hs hroom := h'.housed (h.housed hs fun hfatal => hroom (h'.log.isFatal hfatal)) hroom

theorem of_shelters (hlog : LogGrows s t) (h : s.Shelters t) : StaysHoused s t := ⟨hlog, fun hs _ => h.housed hs⟩

theorem of_still (h : s.Shelters t) (hst : s.Still t) : StaysHoused s t :=
  of_shelters (.of_collector_eq hst.collector) h

theorem report (s : Pass) (d : Diagnostic) (hd : d.isError) :
    StaysHoused s { s with collector := (s.collector.report d).1 } :=
  of_shelters (.report s d hd) (.of_store_eq (AllowsAll.complain s d hd) rfl rfl)

instance : Allocates StaysHoused := .of_still of_still trans fun s d hd _ => report s d hd

instance : Observes StaysHoused := .of_still of_still trans fun s d hd _ => report s d hd

end StaysHoused

namespace Check

variable {α : Type} {s t : Pass}

theorem Moves.staysHoused {x : Check α} (hlog : Moves LogGrows x) (h : Moves Pass.Shelters x) : Moves StaysHoused x :=
  (hlog.and h).mono fun _ _ h => .of_shelters h.1 h.2

/-- A run that stops has too many errors, so only runs that complete count. -/
theorem Moves.housed {x : Check α} (hlog : Moves LogGrows x) (h : ∀ {s a t}, x s = .ok a t → s.Housed → t.Housed) :
    Moves StaysHoused x where
  along s := by
    refine ⟨hlog.along s, fun hs hroom => ?_⟩
    cases hrun : x s with
    | ok a t => exact after_of_ok hrun ▸ h hrun hs
    | error stop t =>
      rw [after_of_error hrun] at hroom
      exact absurd (hlog.fatal hrun) hroom
  traced := hlog.traced

/-! ## Binding what is bound elsewhere -/

/-- Entities may be bound one after the other, if each of them may. -/
theorem housed_bindAll (h : bindAll scope members s = .ok () t)
    (hs : s.Housed) (hmay : ∀ e ∈ members, s.store.MayBind scope e) : t.Housed := by
  induction members generalizing s with
  | nil =>
    cases h
    exact hs
  | cons e rest ih =>
    rw [List.forall_mem_cons] at hmay
    replace h := rest_of_ok rfl h
    have hstays := s.store.stays_bind scope e
    refine ih h ⟨Store.housed_bind hs.arena hmay.1, fun p hp => hstays.isFileLevel (hs.files p hp)⟩ fun e' he' => ?_
    exact (hmay.2 e' he').bind e

/-- What is bound in a scope may be bound in a block right inside. -/
theorem mayBind_of_parent {outer inner : ScopeId} (hs : s.Housed) (hkind : (s.store.arena.scope inner).kind = .block)
    (hparent : (s.store.arena.scope inner).parent = some outer)
    (he : e ∈ (s.store.arena.scope outer).bindings.entities) : s.store.MayBind inner e := by
  obtain ⟨x, hx, hvar⟩ := hs.arena.bound outer e he
  refine ⟨x, hx, fun hsort => ?_⟩
  obtain ⟨hfield, h, hhome, hplace⟩ := hvar hsort
  exact ⟨hfield, .inr ⟨h, hhome, hplace.imp_left (.out hkind hparent)⟩⟩

theorem openScope_ok {parent f : ScopeId} {kind : ScopeKind} {id : NodeId} (h : openScope parent kind id s = .ok f t) :
    f = (s.store.openScope parent kind).1 ∧ t.store = (s.store.openScope parent kind).2 := by
  replace h := rest_of_ok rfl h
  replace h := rest_of_ok rfl h
  cases h
  exact ⟨rfl, rfl⟩

theorem housed_openBody {signature : ScopeId} {id : NodeId} {r : ScopeId × List EntityId}
    (h : openBody signature id s = .ok r t) (hs : s.Housed) : t.Housed := by
  obtain ⟨scope, s₁, hopen, h⟩ := bind_eq_ok.mp h
  replace h := rest_of_ok rfl h
  obtain ⟨_, s₃, hbind, h⟩ := bind_eq_ok.mp h
  cases h
  have hs₁ : s₁.Housed := (moves_openScope.ok hopen : s.Shelters s₁).housed hs
  obtain ⟨rfl, hstore⟩ := openScope_ok hopen
  have hread := s.store.scope?_openScope signature .block (s.store.openScope signature .block).1
  rw [if_pos rfl, ← hstore] at hread
  exact housed_bindAll hbind hs₁ fun e he =>
    mayBind_of_parent hs₁ (by simp [Arena.scope, hread]) (by simp [Arena.scope, hread]) he

/-- What an import exposes stands at file level. -/
theorem mayBind_of_import (hs : s.Housed) {file : ScopeId} (hfile : s.store.arena.IsFileLevel file)
    (he : e ∈ (s.store.arena.scope file).bindings.entities) : s.store.MayBind scope e := by
  obtain ⟨x, hx, hvar⟩ := hs.arena.bound file e he
  refine ⟨x, hx, fun hsort => ?_⟩
  obtain ⟨hfield, h, hhome, hplace⟩ := hvar hsort
  refine ⟨hfield, .inr ⟨h, hhome, .inr ?_⟩⟩
  rcases hplace with hwithin | hlevel
  · cases hwithin with
    | here => exact hfile
    | out hkind _ _ =>
      obtain ⟨c, hc, hlevel⟩ := hfile
      simp [Arena.scope, hc] at hkind
      simp [hkind, ScopeKind.isFileLevel] at hlevel
  · exact hlevel

/-- Constants may be bound anywhere. -/
theorem mayBind_of_isConstant (he : s.store.arena.IsConstant e) : s.store.MayBind scope e := by
  obtain ⟨x, v, hx, hkind⟩ := he
  exact ⟨x, hx, fun hsort => by simp [hkind, EntityKind.name] at hsort⟩

theorem isConstant_of_members {a : Arena} (ha : a.Housed) {u : TypeId}
    (h : a.members? u = some members) {m : EntityId} (hm : m ∈ members) : a.IsConstant m := by
  unfold Arena.members? Arena.base at h
  split at h
  · rename_i base ms heq
    cases h
    cases hτ : a.type? (a.baseType u) with
    | none => simp [Arena.type, hτ, Ty.blank] at heq
    | some τ =>
      simp only [Arena.type_eq hτ] at heq
      exact ha.enums _ τ hτ m (by simpa [heq, Ty.enumerated] using hm)
  · cases h

theorem housed_exposeMembers {source : String}
    (h : exposeMembers scope source token members s = .ok () t) (hs : s.Housed)
    (hmay : ∀ e ∈ members, s.store.MayBind scope e) : t.Housed := by
  replace h := rest_of_ok rfl h
  generalize collision? s.store.arena scope members = collision at h
  cases collision with
  | some p => exact ((moves_report rfl).ok h : s.Shelters t).housed hs
  | none => exact housed_bindAll h hs hmay

theorem housed_exposeType (h : exposeType scope e token s = .ok () t) (hs : s.Housed) : t.Housed := by
  replace h := rest_of_ok rfl h
  split at h
  · cases h
    exact hs
  · cases hmembers : s.store.arena.members? ((s.store.arena.entity e).type.getD .invalid) with
    | some members =>
      rw [hmembers] at h
      exact housed_exposeMembers h hs fun m hm => mayBind_of_isConstant (isConstant_of_members hs.arena hmembers hm)
    | none =>
      rw [hmembers] at h
      exact ((moves_report rfl).ok h : s.Shelters t).housed hs

theorem moves_exposeHoused (scope : ScopeId) (e : EntityId) (token : Token) :
    Moves StaysHoused (exposeEntity scope e token) := by
  refine .housed (moves_exposeEntity scope e token) fun {s _ t} h hs => ?_
  replace h := rest_of_ok rfl h
  cases hkind : (s.store.arena.entity e).kind with
  | importName info =>
    rw [hkind] at h
    refine housed_exposeMembers h hs fun e' he' => mayBind_of_import hs ?_ he'
    cases hx : s.store.arena.entity? e with
    | none => simp [Arena.entity, hx, Entity.blank] at hkind
    | some x => exact hs.arena.imports e x info hx (by simpa [Arena.entity, hx] using hkind)
  | typeName =>
    rw [hkind] at h
    exact housed_exposeType h hs
  | var v =>
    rw [hkind] at h
    exact (moves_exposeVariable.ok h : s.Shelters t).housed hs
  | implicitValue =>
    rw [hkind] at h
    exact (moves_exposeVariable.ok h : s.Shelters t).housed hs
  | _ =>
    rw [hkind] at h
    exact ((moves_report rfl).ok h : s.Shelters t).housed hs

/-! ## Binding what is new -/

theorem newEntity_shelters (hx : ∀ info, x.kind ≠ .importName info) (h : newEntity x s = .ok e t) : s.Shelters t := by
  obtain ⟨-, rfl⟩ := newEntity_ok h
  exact ⟨.of_store (.newEntity ..), s.store.shelters_newEntity fun _ info hkind => absurd hkind (hx info), rfl⟩

theorem mayBind_shelters (h : s.store.MayBind scope e) (hst : s.Shelters t) : t.store.MayBind scope e := by
  obtain ⟨x, hx, hvar⟩ := h
  obtain ⟨y, hy, hxy⟩ := hst.arena.stays.entities e x hx
  refine ⟨y, hy, fun hsort => ?_⟩
  obtain ⟨hfield, hplace⟩ := hvar (hxy.sort.symm.trans hsort)
  refine ⟨by rw [hxy.field, hxy.through, hfield], ?_⟩
  obtain ⟨hnone, hlocal⟩ | ⟨g, hhome, hplace⟩ := hplace
  · obtain ⟨z, hz, hznone⟩ := hst.arena.homeless e x hx hnone
    rw [hy] at hz
    cases hz
    exact .inl ⟨hznone, hlocal.trans hst.grows.store.id.symm⟩
  · exact .inr ⟨g, hxy.home g hhome, hplace.imp hst.arena.stays.within hst.arena.stays.isFileLevel⟩

/-- What may be bound is bound, and what else may be bound still may. -/
theorem housed_bindIdent (hs : s.Housed) (hmay : s.store.MayBind scope e) :
    ((Check.bind scope ident e).after s).Housed ∧ ∀ e', s.store.MayBind scope e' →
    ((Check.bind scope ident e).after s).store.MayBind scope e' := by
  obtain ⟨rest, heq, hrest⟩ := exists_afterBind (R := Pass.Shelters) scope ident
  have hbind : (fromStore fun store => store.bind scope e) s =
    .ok (s.store.bind scope e).1 { s with store := (s.store.bind scope e).2 } := rfl
  have hshelters := (hrest e (s.store.bind scope e).1).along { s with store := (s.store.bind scope e).2 }
  have hstays := s.store.stays_bind scope e
  rw [heq, after_bind hbind]
  exact ⟨hshelters.housed ⟨Store.housed_bind hs.arena hmay, fun p hp => hstays.isFileLevel (hs.files p hp)⟩,
    fun e' he' => mayBind_shelters (he'.bind e) hshelters⟩

/-- New variables may be bound. -/
theorem mayBind_newVariables (h : newVariables names s = .ok es t) : ∀ e ∈ es, t.store.MayBind scope e := by
  induction names generalizing s es with
  | nil =>
    cases h
    simp
  | cons name rest ih =>
    obtain ⟨e, s₁, hnew, h⟩ := bind_eq_ok.mp h
    obtain ⟨es', s₂, hrest, h⟩ := bind_eq_ok.mp h
    cases h
    refine List.forall_mem_cons.mpr ⟨?_, ih hrest⟩
    obtain ⟨rfl, rfl⟩ := newEntity_ok hnew
    exact mayBind_shelters (s.store.mayBind_newEntity scope ⟨rfl, rfl⟩) (moves_newVariables.ok hrest)

theorem housed_bindVariables
    (h : bindVariables scope entries s = .ok () t) (hs : s.Housed) (hmay : ∀ p ∈ entries, s.store.MayBind scope p.2) :
    t.Housed := by
  induction entries generalizing s with
  | nil =>
    cases h
    exact hs
  | cons p rest ih =>
    rw [List.forall_mem_cons] at hmay
    obtain ⟨_, s₁, hbind, h⟩ := bind_eq_ok.mp h
    obtain ⟨hs₁, hkept⟩ := after_of_ok hbind ▸ housed_bindIdent hs hmay.1
    exact ih h hs₁ fun q hq => hkept q.2 (hmay.2 q hq)

theorem moves_localsHoused {ctx : Context} (hc : ctx.AtTop) (d : VarDecl) :
    Moves StaysHoused (localVariables ctx d) := by
  refine .housed (DeclaresLocals.locals ctx d hc) fun {s _ t} h hs => ?_
  obtain ⟨es, s₁, hnew, h⟩ := bind_eq_ok.mp h
  obtain ⟨_, s₂, hdecl, h⟩ := bind_eq_ok.mp h
  obtain ⟨_, s₃, hbind, h⟩ := bind_eq_ok.mp h
  have hs₁ : s₁.Housed := (moves_newVariables.ok hnew : s.Shelters s₁).housed hs
  have hshelters : s₁.Shelters s₂ :=
    (moves_varDecl (moves_expr moves_demand ctx) (fun _ _ => trivial) d.type d.values).ok hdecl
  have hs₃ := housed_bindVariables hbind (hshelters.housed hs₁) fun p hp =>
    mayBind_shelters (mayBind_newVariables hnew p.2 (List.of_mem_zip hp).2) hshelters
  have hexpose : Moves Pass.Shelters (if d.exposes then exposeVariables ctx.scope es else pure ()) := by grind
  exact (hexpose.ok h).housed hs₃

/-! ## Entering declarations -/

/-- What is made for a declaration is new, and may be bound. -/
theorem housed_step {r r' : Roll} {u : Pass} {K : Ident → Declaration → Prop} (hstep : Roll.Step scope K r t r' u)
    (h : t.Housed ∧ ∀ p ∈ r.entries, t.store.MayBind scope p.2) :
    u.Housed ∧ ∀ p ∈ r'.entries, u.store.MayBind scope p.2 := by
  obtain ⟨ht, hmay⟩ := h
  have hquiet {u : Pass} (hu : t.Shelters u) : u.Housed ∧ ∀ p ∈ r.entries, u.store.MayBind scope p.2 :=
    ⟨hu.housed ht, fun p hp => mayBind_shelters (hmay p hp) hu⟩
  cases hstep with
  | report token hp => exact hquiet ((moves_report hp).along t)
  | hoist id => exact hquiet (.of_store_eq (Prepares.hoist t id) rfl rfl)
  | make name d hnew =>
    have himport : ∀ info, (d.entity name).kind ≠ .importName info := by
      cases d <;> simp [Declaration.entity, Declaration.kind, Entity.fresh]
    refine ⟨(newEntity_shelters himport hnew).housed ht, fun p hp => ?_⟩
    obtain rfl := List.mem_singleton.mp hp
    obtain ⟨rfl, rfl⟩ := newEntity_ok hnew
    exact t.store.mayBind_newEntity scope ⟨rfl, by cases d <;> rfl⟩
  | makeAll type values hnew =>
    exact ⟨(moves_newVariables.ok hnew : t.Shelters u).housed ht, fun p hp =>
      mayBind_newVariables hnew p.2 (List.of_mem_zip hp).2⟩
  | await => exact hquiet (.of_store_eq (Enters.await t _) rfl rfl)
  | bind he =>
    obtain ⟨hu, hkept⟩ := housed_bindIdent ht (hmay _ he)
    exact ⟨hu, fun p hp => hkept p.2 (hmay p hp)⟩

instance : Registers StaysHoused where
  register {_ _ scope _ _} h := by
    refine ((Registers.register (R := LogGrows) h).and (h.moves (R := fun s t => s.Housed → t.Housed) (I := fun s r t =>
      s.Housed → t.Housed ∧ ∀ p ∈ r.entries, t.store.MayBind scope p.2) ?_ ?_ ?_)).mono fun _ _ h =>
        ⟨h.1, fun hs _ => h.2 hs⟩
    · exact fun hstep h hs => housed_step hstep (h hs)
    · exact fun s hs => ⟨hs, by simp [Roll.blank]⟩
    · exact fun h hs => (h hs).1

instance : Declares StaysHoused where
  complain := .report
  params scope params := moves_exposeParams scope params
  expose := moves_exposeHoused
  openBody signature id := .housed (moves_openBody signature id) housed_openBody
  expr ctx reading e _ := .staysHoused (moves_expr moves_demand ctx reading e) (moves_expr moves_demand ctx reading e)
  demand ctx e _ := .staysHoused (moves_demand ctx e) (moves_demand ctx e)
  dequeue _ := ⟨.of_collector_eq rfl, fun hs _ => ⟨hs.arena, hs.files⟩⟩
  locals _ d hc := moves_localsHoused hc d

/-! ## Files -/

theorem isFileLevel_openFile (s : Store) :
    (s.openScope .global .file).2.arena.IsFileLevel (s.openScope .global .file).1 :=
  ⟨_, by rw [Store.scope?_openScope, if_pos rfl], rfl⟩

theorem mem_insertFile {files : List (String × ScopeId)} {path : String} {p : String × ScopeId}
    (h : p ∈ insertFile files path scope) : p ∈ files ∨ p.2 = scope := by
  unfold insertFile at h
  split at h
  · obtain ⟨q, hq, rfl⟩ := List.mem_map.mp h
    split
    · exact .inr rfl
    · exact .inl hq
  · rcases List.mem_append.mp h with h | h
    · exact .inl h
    · exact .inr (by rw [List.mem_singleton.mp h])

theorem housed_openFiles {files : List File} (h : openFiles files s = .ok () t) (hs : s.Housed) : t.Housed := by
  induction files generalizing s with
  | nil =>
    cases h
    exact hs
  | cons file rest ih =>
    have hshelters := s.store.shelters_openScope .global .file
    refine ih (rest_of_ok rfl (rest_of_ok rfl h)) ⟨hshelters.housed hs.arena, fun p hp => ?_⟩
    rcases mem_insertFile hp with hp | hp
    · exact hshelters.stays.isFileLevel (hs.files p hp)
    · rw [hp]
      exact isFileLevel_openFile s.store

theorem housed_enterImport {d : ImportDecl} {target : ScopeId} (h : enterImport d scope target s = .ok () t)
    (hs : s.Housed) (htarget : s.store.arena.IsFileLevel target) : t.Housed := by
  obtain ⟨e, s₁, hnew, h⟩ := bind_eq_ok.mp h
  obtain ⟨b, s₂, hbind, h⟩ := bind_eq_ok.mp h
  obtain ⟨rfl, rfl⟩ := newEntity_ok hnew
  have hshelters := s.store.shelters_newEntity (x := Entity.typed (.importName
    ⟨d.path.text, (importToken d).text, target⟩) (importToken d) (d.name.map Node.id) .invalid)
    fun _ info hkind => by cases hkind; exact htarget
  have hs₁ : Pass.Housed { s with store := (s.store.newEntity _).2 } :=
    ⟨hshelters.housed hs.arena, fun p hp => hshelters.stays.isFileLevel (hs.files p hp)⟩
  have hs₂ := after_of_ok hbind ▸ (housed_bindIdent hs₁ (s.store.mayBind_newEntity scope ⟨rfl, rfl⟩)).1
  cases b with
  | false =>
    cases h
    exact hs₂
  | true =>
    cases h
    exact ⟨hs₂.arena, hs₂.files⟩

theorem housed_bindImport {d : ImportDecl} {target : ScopeId} (h : bindImport d scope target s = .ok () t)
    (hs : s.Housed) (htarget : s.store.arena.IsFileLevel target) : t.Housed := by
  rw [bindImport_eq] at h
  replace h := rest_of_ok rfl h
  split at h
  · replace h := rest_of_ok rfl h
    exact housed_enterImport h ⟨hs.arena, hs.files⟩ htarget
  · exact housed_enterImport h hs htarget

theorem moves_resolveImportHoused (d : ImportDecl) (scope : ScopeId) : Moves StaysHoused (resolveImport d scope) := by
  refine .housed (moves_resolveImport d scope) fun {s _ t} h hs => ?_
  replace h := rest_of_ok rfl h
  cases hlookup : s.files.lookup d.path.text with
  | none =>
    rw [hlookup] at h
    exact ((moves_report rfl).ok h : s.Shelters t).housed hs
  | some target =>
    rw [hlookup] at h
    dsimp only at h
    split at h
    · exact ((moves_report rfl).ok h : s.Shelters t).housed hs
    · obtain ⟨before, after, heq, -⟩ := List.lookup_eq_some_iff.mp hlookup
      exact housed_bindImport h hs (hs.files (d.path.text, target) (by simp [heq]))

theorem moves_resolveImportsHoused (scope : ScopeId) (stmts : List Stmt) :
    Moves StaysHoused (resolveImports scope stmts) := by
  have h := moves_resolveImportHoused
  fun_induction resolveImports scope stmts <;> grind

theorem moves_resolveFilesHoused : Moves StaysHoused (resolveFiles files) := by
  have h := moves_resolveImportsHoused
  induction files with
  | nil => exact moves_pure _
  | cons file rest ih =>
    unfold resolveFiles
    grind

theorem moves_fileLevelHoused (config : Config) (files : List File) : Moves StaysHoused (fileLevel config files) := by
  have hopen : Moves StaysHoused (openFiles files) := .housed (moves_openFiles files) housed_openFiles
  exact follows_fileLevel hopen moves_resolveFilesHoused fun _ _ _ _ => trivial

end Check

end Statics
