import Statics.Program
import Statics.Proofs.Growth
import Statics.Proofs.Run.Invariant
import Statics.Source.Builder

/-!
# Declared entities

Every declaration that a pass keeps belongs to an entity of its slab, of the sort that the declaration is for.
Declarations are entered right after their entities, and an entity keeps its sort.
-/

namespace Statics

variable {d : Declaration} {v : EntityId} {entities es : List EntityId} {init : Expr} {values : List Expr}
  {token : Token}

/-- Name of the sort of entity that a declaration is for. -/
def Declaration.sort : Declaration → String
  | .constant .. => "constant"
  | .vars .. => "variable"
  | .type .. => "type name"
  | .proc .. => "procedure"

/-- An entity of some sort, in the slab that may be written. -/
structure Store.Owns (s : Store) (e : EntityId) (sort : String) : Prop where
  slab : e.slab = s.current.id
  entity : ∃ x, s.arena.entity? e = some x ∧ x.kind.name = sort

theorem Store.Owns.grows {s t : Store} {sort : String} (h : s.Owns e sort) (hg : s.Grows t) : t.Owns e sort := by
  obtain ⟨x, hx, hsort⟩ := h.entity
  obtain ⟨y, hy, hxy⟩ := hg.toExtends.entities e x hx
  exact ⟨h.slab.trans hg.id.symm, y, hy, hxy.sort.trans hsort⟩

theorem Store.owns_newEntity (s : Store) (x : Entity) : (s.newEntity x).2.Owns (s.newEntity x).1 x.kind.name :=
  ⟨rfl, x, by rw [entity?_newEntity, if_pos rfl], rfl⟩

/-- An entity that was made for a name. -/
def Store.Names (s : Store) (p : Ident × EntityId) : Prop :=
  ∃ x, s.arena.entity? p.2 = some x ∧ x.token = p.1.token ∧ x.ident = some p.1.id

theorem Store.Names.grows {s t : Store} {p : Ident × EntityId} (h : s.Names p) (hg : s.Grows t) : t.Names p := by
  obtain ⟨x, hx, htoken, hident⟩ := h
  obtain ⟨y, hy, hxy⟩ := hg.toExtends.entities p.2 x hx
  exact ⟨y, hy, hxy.token.trans htoken, hxy.ident.trans hident⟩

theorem Store.names_newEntity (s : Store) (name : Ident) (kind : EntityKind) :
    (s.newEntity (.fresh kind name.token (some name.id))).2.Names
      (name, (s.newEntity (.fresh kind name.token (some name.id))).1) :=
  ⟨_, by rw [entity?_newEntity, if_pos rfl], rfl, rfl⟩

theorem Store.Owns.modifyType {s : Store} {e : EntityId} {sort : String} (h : s.Owns e sort) (t : TypeId)
    (f : Ty → Ty) : (s.modifyType t f).Owns e sort :=
  ⟨by simp [h.slab], by simpa using h.entity⟩

/-- The sort of an owned entity, as it reads. -/
theorem Store.Owns.kind {s : Store} {e : EntityId} {sort : String} (h : s.Owns e sort) :
    (s.arena.entity e).kind.name = sort := by
  obtain ⟨x, hx, hsort⟩ := h.entity
  simpa [Arena.entity, hx] using hsort

/-- A declaration belongs to an entity. -/
structure Declaration.Suits (d : Declaration) (s : Store) (e : EntityId) : Prop where
  own : s.Owns e d.sort
  vars : ∀ v ∈ d.variables, s.Owns v "variable"
  among : d.sort = "variable" → e ∈ d.variables

/-- Every declaration belongs to its entity. -/
def Pass.Declared (s : Pass) : Prop := ∀ p ∈ s.decls, p.2.Suits s.store p.1

theorem Pass.Declared.grows {s t : Pass} (h : s.Declared) (hg : s.Grows t) (hd : t.decls = s.decls) : t.Declared := by
  intro p hp
  rw [hd] at hp
  exact ⟨(h p hp).own.grows hg.store, fun v hv => ((h p hp).vars v hv).grows hg.store, (h p hp).among⟩

/-! ## Entering declarations -/

/-- Declarations keep belonging to their entities. -/
structure KeepsDeclared (s t : Pass) : Prop where
  grows : s.Grows t
  declared : s.Declared → t.Declared

namespace KeepsDeclared

variable {s t u : Pass}

theorem of_decls (hg : s.Grows t) (hd : t.decls = s.decls) : KeepsDeclared s t := ⟨hg, fun h => h.grows hg hd⟩

theorem trans (h : KeepsDeclared s t) (h' : KeepsDeclared t u) : KeepsDeclared s u :=
  ⟨h.grows.trans h'.grows, fun hs => h'.declared (h.declared hs)⟩

instance : Binds KeepsDeclared := .of_idle (fun h _ hst => of_decls h hst.decls) trans

instance : Prepares KeepsDeclared where
  newWaiting s x hx := of_decls (Prepares.newWaiting s x hx) rfl
  hoist s id := of_decls (Prepares.hoist s id) rfl

end KeepsDeclared

theorem Declaration.sort_eq (d : Declaration) : d.kind.name = d.sort := by cases d <;> rfl

namespace Check

variable {α β : Type}

theorem owns_newVariables {names : List Ident} (h : newVariables names s = .ok es t) :
    ∀ e ∈ es, t.store.Owns e "variable" := by
  induction names generalizing s es with
  | nil =>
    cases h
    simp
  | cons name rest ih =>
    obtain ⟨e, s₁, hnew, h⟩ := bind_eq_ok.mp h
    obtain ⟨es', s₂, hrest, h⟩ := bind_eq_ok.mp h
    cases h
    refine List.forall_mem_cons.mpr ⟨?_, ih hrest⟩
    have hgrows : s₁.Grows t := moves_newVariables.ok hrest
    cases hnew
    exact (s.store.owns_newEntity _).grows hgrows.store

theorem names_newVariables {names : List Ident} (h : newVariables names s = .ok es t) :
    ∀ p ∈ names.zip es, t.store.Names p := by
  induction names generalizing s es with
  | nil => simp
  | cons name rest ih =>
    obtain ⟨e, s₁, hnew, h⟩ := bind_eq_ok.mp h
    obtain ⟨es', s₂, hrest, h⟩ := bind_eq_ok.mp h
    cases h
    rw [List.zip_cons_cons]
    refine List.forall_mem_cons.mpr ⟨?_, ih hrest⟩
    have hgrows : s₁.Grows t := moves_newVariables.ok hrest
    cases hnew
    exact (s.store.names_newEntity name _).grows hgrows.store

end Check

/-- The entities that were made last were made for their names, and are of the sort that their declaration is for. -/
def Roll.Made (r : Roll) (s : Store) : Prop := ∀ p ∈ r.entries, s.Owns p.2 r.decl.sort ∧ s.Names p

namespace Roll.Step

variable {scope : ScopeId} {K : Ident → Declaration → Prop} {r r' : Roll} {s t u : Pass}

theorem made (h : Step scope K r s r' t) (hr : r.Made s.store) : r'.Made t.store := by
  have hg : s.Grows t := h.along fun _ => Enters.await s _
  cases h with
  | make name d hnew =>
    intro p hp
    obtain rfl := List.mem_singleton.mp hp
    obtain ⟨rfl, rfl⟩ := Check.newEntity_ok hnew
    exact ⟨d.sort_eq ▸ s.store.owns_newEntity _, s.store.names_newEntity name d.kind⟩
  | makeAll type values hnew =>
    exact fun p hp => ⟨Check.owns_newVariables hnew p.2 (List.of_mem_zip hp).2, Check.names_newVariables hnew p hp⟩
  | _ => exact fun p hp => ⟨(hr p hp).1.grows hg.store, (hr p hp).2.grows hg.store⟩

/-- Declarations are kept for entities that were made for them. -/
theorem suits (hr : r.Made s.store) (h : r.Keeps K e) : r.decl.Suits s.store e := by
  obtain ⟨name, he, -⟩ := h.name
  refine ⟨(hr _ he).1, fun v hv => ?_, fun hsort => h.own ?_⟩
  · obtain ⟨p, hp, rfl⟩ := List.mem_map.mp (h.vars hv)
    have hsort : r.decl.sort = "variable" := by cases hd : r.decl <;> simp_all [Declaration.variables, Declaration.sort]
    exact hsort ▸ (hr p hp).1
  · cases hd : r.decl <;> simp_all [Declaration.kind, Declaration.sort]

theorem declared (h : Step scope K r t r' u) (ht : KeepsDeclared s t ∧ r.Made t.store) :
    KeepsDeclared s u ∧ r'.Made u.store := by
  refine ⟨ht.1.trans (h.along fun hkeeps => ⟨Enters.await t _, fun hs => ?_⟩), h.made ht.2⟩
  exact List.forall_mem_cons.mpr ⟨suits ht.2 hkeeps, hs⟩

end Roll.Step

instance : Registers KeepsDeclared where
  register h := h.moves (I := fun s r t => KeepsDeclared s t ∧ r.Made t.store) Roll.Step.declared
    (fun s => ⟨Reports.refl s, by simp [Roll.Made, Roll.blank]⟩) And.left

namespace Check

variable {α β : Type}

/-! ## Entities that get a type -/

/-- Every completed run gives an entity a type. -/
structure Types (e : EntityId) (x : Check α) : Prop where
  grows : Moves Pass.Grows x
  typed : ∀ {s a t sort}, x s = .ok a t → s.store.Owns e sort → (t.store.arena.entity e).type.isSome

section

variable {e : EntityId} {x : Check α} {f : α → Check β}

theorem types_bind (hx : Moves Pass.Grows x) (hf : ∀ a, Types e (f a)) : Types e (x >>= f) where
  grows := moves_bind hx fun a => (hf a).grows
  typed h hown := by
    obtain ⟨a, u, hxu, hft⟩ := bind_eq_ok.mp h
    exact (hf a).typed hft (hown.grows (hx.ok hxu).store)

theorem Types.bind (hx : Types e x) (hf : ∀ a, Moves Pass.Grows (f a)) : Types e (x >>= f) where
  grows := moves_bind hx.grows hf
  typed h hown := by
    obtain ⟨a, u, hxu, hft⟩ := bind_eq_ok.mp h
    exact ((hf a).ok hft).isSome_type (hx.typed hxu hown)

theorem types_setType {u : TypeId} : Types e (setType e u) where
  grows := moves_setType trivial u
  typed {s a t sort} h hown := by
    cases h
    obtain ⟨z, hz, -⟩ := hown.entity
    change ((s.store.setType e u).arena.entity e).type.isSome
    rw [Arena.entity, Store.setType, Store.entity?_modifyEntity, if_pos ⟨hown.slab, rfl⟩, hz]
    cases htype : z.type <;> simp [htype]

end

theorem types_setTypes (hv : v ∈ entities) (u : TypeId) : Types v (setTypes u entities) := by
  induction entities with
  | nil => cases hv
  | cons e rest ih =>
    rcases List.mem_cons.mp hv with rfl | hv
    · exact types_setType.bind fun _ => moves_setTypes u fun _ _ => trivial
    · exact types_bind (moves_setType trivial u) fun _ => ih hv

/-! ## Variables that get a type -/

theorem types_inferType {x : Operand} : Types e (inferType e x init) := by
  refine types_bind moves_arena fun a => ?_
  split
  · exact types_bind (moves_report rfl) fun _ => types_setType
  · exact types_setType.bind fun _ => moves_bind (moves_assign _ _ _ _) fun _ => moves_pure _

/-- A variable that has a type keeps it, and one without takes that of its value. -/
theorem types_initVariable {x : Operand} : Types e (initVariable e x init) where
  grows := moves_initVariable trivial
  typed {s a t sort} h hown := by
    have hgrows : s.Grows t := (moves_initVariable trivial).ok h
    cases htype : (s.store.arena.entity e).type with
    | some u => exact hgrows.isSome_type (by simp [htype])
    | none =>
      replace h := rest_of_ok rfl h
      have hassign : Types e (do
          let _ ← assign x init none .variableDeclaration
          setType e .invalid) := types_bind (moves_assign _ _ _ _) fun _ => types_setType
      rw [htype] at h
      cases hmode : x.mode with
      | invalid =>
        rw [hmode] at h
        exact types_setType.typed h hown
      | noValue | type | builtin _ =>
        rw [hmode] at h
        exact hassign.typed h hown
      | _ =>
        rw [hmode] at h
        exact types_inferType.typed h hown

theorem types_initEach (hv : v ∈ entities) (xs : List (Operand × Expr)) : Types v (initEach entities xs) := by
  induction entities generalizing xs with
  | nil => cases hv
  | cons e rest ih =>
    have hrest : ∀ xs, Moves Pass.Grows (initEach rest xs) := moves_initEach fun _ _ => trivial
    rcases List.mem_cons.mp hv with rfl | hv
    · cases xs with
      | nil => exact types_setType.bind fun _ => hrest _
      | cons p xs => exact types_initVariable.bind fun _ => hrest _
    · cases xs with
      | nil => exact types_bind (moves_setType trivial _) fun _ => ih hv _
      | cons p xs => exact types_bind (moves_initVariable trivial) fun _ => ih hv _

section

variable {resolve : Resolver} (hr : ∀ ctx e, Moves Pass.Grows (resolve ctx e)) (ctx : Context)

include hr

theorem types_initVariables (hv : v ∈ entities) {inits : List Expr} :
    Types v (initVariables resolve ctx entities token inits) := by
  refine types_bind (moves_operands (fun e => moves_expr hr ctx .value e)) fun xs => ?_
  refine (types_initEach hv xs).bind fun _ => ?_
  split
  · exact moves_report rfl
  · exact moves_pure _

theorem types_readVariables (hv : v ∈ entities) {type : Option Expr} :
    Types v (readVariables resolve ctx entities token type values) := by
  have hset (u : TypeId) := types_setTypes hv u
  have hgrows (u : TypeId) : Moves Pass.Grows (setTypes u entities) := (hset u).grows
  unfold readVariables
  cases type with
  | none =>
    cases values with
    | nil => exact types_bind (moves_report rfl) fun _ => hset _
    | cons init inits => exact types_initVariables hr ctx hv
  | some type =>
    refine types_bind (moves_expr hr ctx (.type none) type) fun x => ?_
    cases values with
    | nil => exact (hset _).bind fun _ => moves_pure _
    | cons init inits => exact types_bind (hgrows _) fun _ => types_initVariables hr ctx hv

/-- A declaration of variables gives all of them a type. -/
theorem types_varDecl (hv : v ∈ entities) {type : Option Expr} :
    Types v (varDecl resolve ctx entities type values) := by
  refine types_bind moves_arena fun a => ?_
  cases entities with
  | nil => cases hv
  | cons first rest =>
    dsimp only
    split
    · exact types_bind moves_reportCycle fun _ => types_setTypes hv _
    · refine types_bind (moves_visit fun _ _ => trivial) fun _ => types_bind (moves_record _) fun _ => ?_
      exact types_readVariables hr ctx hv

/-! ## Other declarations that give a type -/

omit hr in
theorem types_initConstant {x : Operand} : Types e (initConstant e x init) := by
  refine types_bind moves_arena fun a => ?_
  dsimp only
  split
  · exact types_setType
  · split
    · exact types_setType.bind fun _ => moves_storeValue trivial (moves_assign x init _ _)
    · exact types_bind (moves_report rfl) fun _ => types_setType

theorem types_constant {type value : Option Expr} : Types e (constant resolve ctx e type value) := by
  have hread (init : Expr) : Types e (do initConstant e (← expr resolve ctx .value init) init) :=
    types_bind (moves_expr hr ctx .value init) fun y => types_initConstant
  unfold constant
  cases type with
  | none =>
    cases value with
    | none => exact types_setType
    | some init => exact hread init
  | some type =>
    refine types_bind (moves_expr hr ctx (.type none) type) fun y => ?_
    refine types_bind (moves_setType trivial _) fun _ => ?_
    cases value with
    | none => exact types_setType
    | some init => exact hread init

/-- The base of a named type is filled in after its entity got the type. -/
theorem types_namedType {type : Expr} : Types e (namedType resolve ctx e type) where
  grows := moves_namedType (fun reading => moves_expr hr _ reading type) trivial
  typed {s a t sort} h hown := by
    obtain ⟨x, s₁, hx, h⟩ := bind_eq_ok.mp h
    obtain ⟨named, s₂, hnew, h⟩ := bind_eq_ok.mp h
    obtain ⟨_, s₃, hset, h⟩ := bind_eq_ok.mp h
    obtain ⟨y, s₄, hy, h⟩ := bind_eq_ok.mp h
    obtain ⟨a, s₅, ha, h⟩ := bind_eq_ok.mp h
    cases hx
    obtain ⟨rfl, rfl⟩ := newType_ok hnew
    have htyped := types_setType.typed hset (hown.grows (.newType s.store (.named _ none e)))
    have hread := ((moves_expr hr (ctx.declaring e) _ type).ok hy).isSome_type htyped
    cases ha
    cases h
    simpa only [Arena.entity, Store.entity?_modifyType] using hread

theorem types_procSignature {d : ProcDecl} : Types e (procSignature resolve ctx e d) := by
  refine types_bind moves_openScope fun scope => ?_
  refine types_bind (moves_anySignature hr) fun t => types_setType.bind fun _ => ?_
  exact moves_bind (moves_fillIn trivial fun x => fillsIn_setScope x scope) fun _ => moves_pure _

theorem types_procedure {d : ProcDecl} : Types e (procedure resolve ctx e d) := by
  obtain ⟨rest, heq, hrest⟩ := exists_afterSignature (R := Pass.Grows) (F := fun _ => True) d
    (fun _ _ _ s => Demands.claimLink s _) fun _ _ _ _ s => Demands.enqueue s _
  rw [heq]
  exact (types_procSignature hr ctx).bind hrest

/-- The check of a declaration gives its entity a type. -/
theorem types_declaration (hamong : d.sort = "variable" → e ∈ d.variables) :
    Types e (declaration resolve ctx e d) := by
  cases d with
  | constant scope type value => exact types_constant hr ctx
  | vars scope entities type values => exact types_varDecl hr ctx (hamong rfl)
  | type scope type => exact types_namedType hr ctx
  | proc scope d => exact types_procedure hr ctx

end

/-! ## Demands that give a type -/

/-- A demand for an entity without a type reports that its declaration depends on itself, or checks the declaration
that is kept for it. -/
theorem demandFrom_of_take {pending rest : Pending} (hnone : (s.store.arena.entity e).type = none)
    (htake : take? e pending = some (d, rest)) : demandFrom pending ctx e s = (if s.active.contains e then do
        reportCycle e
        setType e .invalid
      else do
        record (.enter e)
        declaration (demandFrom rest) (ctx.within d.scope) e d
        record (.leave e)) s := by
  have hread (f : Entity → Check Unit) : (entity e >>= f) s = f (s.store.arena.entity e) s := rfl
  have hget (f : Pass → Check Unit) : (get >>= f) s = f s s := rfl
  rw [demandFrom, hread, if_neg (by simp [hnone]), hget]
  refine congrFun ?_ s
  split
  · rfl
  · split
    case h_1 d' rest' taken =>
      cases htake.symm.trans taken
      rfl
    case h_2 hnot => simp [htake] at hnot

/-- An entity that waits for a declaration has a type once it was demanded. -/
theorem typed_demand (h : demand ctx e s = .ok () t)
    (hdeclared : s.Declared) (hd : (e, d) ∈ s.decls) : (t.store.arena.entity e).type.isSome := by
  cases htype : (s.store.arena.entity e).type with
  | some u =>
    have hgrows : s.Grows t := (moves_demand ctx e).ok h
    exact hgrows.isSome_type (by simp [htype])
  | none =>
    obtain ⟨⟨d', rest⟩, taken⟩ := Option.isSome_iff_exists.mp (isSome_take? (List.mem_map_of_mem hd))
    have hsuits := hdeclared _ (subset_of_take? taken).1
    have hchecks : Types e (do
        record (.enter e)
        declaration (demandFrom rest) (ctx.within d'.scope) e d'
        record (.leave e)) :=
      types_bind (moves_record _) fun _ =>
        (types_declaration (moves_demandFrom rest) _ hsuits.among).bind fun _ => moves_record _
    have hrun : demandFrom s.decls ctx e s = .ok () t := h
    rw [demandFrom_of_take htype taken] at hrun
    split at hrun
    · exact (types_bind moves_reportCycle fun _ => types_setType).typed hrun hsuits.own
    · exact hchecks.typed hrun hsuits.own

end Check

/-! ## Counts of names and values

A declaration of variables and an assignment both report how many values they have for how many names or places. The
assignment counts all its values, the declaration those that are not wrong already. -/

/-- A declaration that has values, none of them wrong, counts them like an assignment. -/
theorem Check.initVariables_eq {resolve : Resolver} {ctx : Context} {xs : List (Operand × Expr)} {s t : Pass}
    (hrun : operands resolve ctx values s = .ok xs t) (hsome : xs ≠ []) (hvalid : ∀ p ∈ xs, p.1.isInvalid = false) :
    initVariables resolve ctx entities token values s = (do
      initEach entities xs
      if entities.length != xs.length then report token (.countMismatch entities.length xs.length) : Check Unit) t := by
  have hall : xs.filter (fun p => !p.1.isInvalid) = xs := List.filter_eq_self.mpr fun p hp => by simp [hvalid p hp]
  have hpos := List.length_pos_iff.mpr hsome
  simp only [initVariables, Bind.bind, EStateM.bind, hrun, hall, hpos, decide_true, Bool.true_and]

namespace Mistaken

open Builder in
/-- Two variables and two values, the first of which is wrong. -/
def declared : Build (List Stmt) :=
  return [← vars ["a", "b"] none [← name "undeclared", ← int .one] false]

/-- The errors of a file with some declarations. -/
def errors (decls : Build (List Stmt)) : List (Category × String) :=
  (checkFiles .standard [⟨"m", (decls (.start "m")).1⟩]).collector.log.map fun entry =>
    (entry.diagnostic.category, entry.diagnostic.message)

end Mistaken

/-- A wrong value is reported twice, once for itself and once because it is missing: two variables with two values are
reported for their count. -/
theorem declaration_mistake_counted :
    Mistaken.errors Mistaken.declared = [(.undeclared, "Undeclared name: undeclared"),
      (.arityMismatch, "Assignment count mismatch `2` = `1`")] := by
  decide +kernel

end Statics
