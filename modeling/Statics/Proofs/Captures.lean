import Statics.Proofs.Accepted
import Statics.Proofs.Captures.Enclosing
import Statics.Proofs.Captures.Runs
import Statics.Source.Builder

/-!
# Captured variables

The storage of a procedure is out of reach for the procedures inside it. The check goes by the scope in which a name
is found: a name is refused if a signature is left on the way out to that scope. What counts is where the storage is,
and the two differ in both directions.

A name that stands for a variable with storage of its own is refused exactly if the home of the variable lies in a
procedure strictly around, or at file level where `using` brought the name into a procedure strictly around. A field
that `using` exposed is never refused, and neither is the target of `using`.
-/

namespace Statics

variable {ctx : Context} {v : VariableInfo} {τ : TypeId} {f : ScopeId} {n : Ident} {id : EntityId}

/-! ## What evaluating a name logs -/

/-- A step that leaves marks: on entities that they are used, and in the notes. -/
structure Pass.Marks (s t : Pass) : Prop where
  collector : t.collector = s.collector
  scopes : ∀ f, t.store.arena.scope? f = s.store.arena.scope? f
  scopeCount : t.store.arena.scopeCount = s.store.arena.scopeCount
  types : ∀ u, t.store.arena.type? u = s.store.arena.type? u
  entities : ∀ e, ∃ used, t.store.arena.entity e = { s.store.arena.entity e with used := used }

namespace Pass.Marks

variable {s t u : Pass}

theorem trans (h : s.Marks t) (h' : t.Marks u) : s.Marks u where
  collector := h'.collector.trans h.collector
  scopes f := (h'.scopes f).trans (h.scopes f)
  scopeCount := h'.scopeCount.trans h.scopeCount
  types τ := (h'.types τ).trans (h.types τ)
  entities e := by
    obtain ⟨_, he⟩ := h.entities e
    obtain ⟨used, he'⟩ := h'.entities e
    exact ⟨used, by rw [he', he]⟩

theorem of_store_eq (hc : t.collector = s.collector) (hs : t.store = s.store) : s.Marks t :=
  ⟨hc, fun _ => by rw [hs], by rw [hs], fun _ => by rw [hs], fun e => ⟨(s.store.arena.entity e).used, by rw [hs]⟩⟩

theorem markUsed (s : Pass) (e : EntityId) : s.Marks { s with store := s.store.markUsed e } where
  collector := rfl
  scopes f := s.store.scope?_markUsed e f
  scopeCount := by
    grind [Store.markUsed, Store.modifyEntity, Arena.scopeCount, Store.arena]
  types u := s.store.type?_markUsed e u
  entities e' := by
    simp only [Arena.entity, Store.entity?_markUsed]
    split
    · cases s.store.arena.entity? e' <;> simp [Entity.blank]
    · exact ⟨_, rfl⟩

theorem chain (h : s.Marks t) (f : ScopeId) : t.store.arena.chain f = s.store.arena.chain f := by
  have hwithin (fuel : Nat) (f : Option ScopeId) :
      t.store.arena.chainWithin fuel f = s.store.arena.chainWithin fuel f := by
    fun_induction Arena.chainWithin s.store.arena fuel f with
    | case1 => rfl
    | case2 => cases ‹Nat› <;> rfl
    | case3 fuel g ih => rw [Arena.chainWithin, Arena.scope, h.scopes, ← ih, Arena.scope]
  rw [Arena.chain, Arena.chain, h.scopeCount, hwithin]

theorem leavesProcedure (h : s.Marks t) (inner outer : ScopeId) :
    t.store.arena.leavesProcedure inner outer = s.store.arena.leavesProcedure inner outer := by
  simp only [Arena.leavesProcedure, h.chain, Arena.scope, h.scopes]

theorem isInvalid (h : s.Marks t) (τ : TypeId) : t.store.arena.isInvalid τ = s.store.arena.isInvalid τ := by
  have htype (τ : TypeId) : t.store.arena.type τ = s.store.arena.type τ := by simp only [Arena.type, h.types]
  have hwithin (fuel : Nat) (τ : TypeId) : t.store.arena.baseWithin fuel τ = s.store.arena.baseWithin fuel τ := by
    induction fuel generalizing τ with
    | zero => rfl
    | succ fuel ih => simp only [Arena.baseWithin, htype, ih]
  simp only [Arena.isInvalid, Arena.kind?, Arena.base, Arena.baseType, hwithin, htype]

end Pass.Marks

namespace Check

variable {α : Type} {s t : Pass}

/-- A run reports a problem about a token. -/
def Reports (x : Check α) (s : Pass) (token : Token) (p : Problem) : Prop :=
  ∃ entry ∈ s.logged (x.after s), entry.diagnostic = p.error token

theorem reports_congr {β : Type} {x : Check α} {y : Check β} (hs : t.collector = s.collector)
    (h : (x.after s).collector = (y.after t).collector) (token : Token) (p : Problem) :
    x.Reports s token p ↔ y.Reports t token p := by
  rw [Reports, Reports, Pass.logged, Pass.logged, h, hs]

theorem not_reports {x : Check α} (h : (x.after s).collector = s.collector) (token : Token) (p : Problem) :
    ¬ x.Reports s token p := by
  simp [Reports, Pass.logged, h]

/-- What comes after may be left out if it reports nothing. -/
theorem collector_bind {β : Type} (x : Check α) {f : α → Check β} (hf : ∀ a t, ((f a).after t).collector = t.collector)
    (s : Pass) : ((x >>= f).after s).collector = (x.after s).collector := by
  cases hx : x s with
  | ok a t => rw [after_bind hx, hf, after_of_ok hx]
  | error stop t => rw [after_bind_of_error hx, after_of_error hx]

/-- Where there is room for errors, a failure is reported. -/
theorem reports_fail (hroom : ¬ s.collector.isFatal) (token : Token) (p : Problem) (id : NodeId) :
    (fail token p id).Reports s token p := by
  have hcollector : ((fail token p id).after s).collector = (s.collector.report (p.error token)).1 := by
    simp only [fail, after, Bind.bind, EStateM.bind, report, emit]
    cases s.collector.report (p.error token) with
    | mk collector result => cases result <;> rfl
  refine ⟨⟨p.error token, s.collector.last != some (p.error token).pos⟩, ?_, rfl⟩
  simp [Pass.logged, hcollector, Collector.report, hroom]

/-- A variable is refused if the way to it leaves a procedure, unless it is a field. -/
theorem reports_variableOperand {e : Expr} {name : String} (hroom : ¬ s.collector.isFatal) :
    (variableOperand ctx v τ e name (some f)).Reports s e.token (.captured name) ↔ s.store.arena.isInvalid τ = false ∧
      v.isField = false ∧ s.store.arena.leavesProcedure ctx.scope f := by
  have hread : (variableOperand ctx v τ e name (some f)).after s =
      (if s.store.arena.isInvalid τ then pure (.invalid e.id)
        else if !v.isField && s.store.arena.leavesProcedure ctx.scope f then fail e.token (.captured name) e.id
        else pure (.var τ e.id) : Check Operand).after s := by
    have harena : arena s = .ok s.store.arena s := rfl
    rw [variableOperand, after_bind harena]
  cases hτ : s.store.arena.isInvalid τ with
  | true =>
    simp only [hτ, if_true] at hread
    simp only [Bool.true_eq_false, false_and, iff_false]
    exact not_reports (by rw [hread]; rfl) _ _
  | false =>
    by_cases hleaves : v.isField = false ∧ s.store.arena.leavesProcedure ctx.scope f
    · simp only [hτ, hleaves, Bool.not_false, Bool.and_self, Bool.false_eq_true, if_false, if_true] at hread
      refine iff_of_true ?_ ⟨rfl, hleaves⟩
      rw [reports_congr rfl (congrArg Pass.collector hread)]
      exact reports_fail hroom _ _ _
    · have hstays : (!v.isField && s.store.arena.leavesProcedure ctx.scope f) = false := by simpa using hleaves
      simp only [hτ, hstays, Bool.false_eq_true, if_false] at hread
      refine iff_of_false ?_ fun h => hleaves h.2
      exact not_reports (by rw [hread]; rfl) _ _

theorem markReached_marks (ctx : Context) (e : EntityId) (s : Pass) :
    ∃ t, markReached ctx e s = .ok () t ∧ s.Marks t := by
  obtain ⟨rest, heq, howner⟩ : ∃ rest : Check Unit,
      markReached ctx e = (do
        if !ctx.assigning then markUsed e
        rest) ∧ ∀ u, ∃ t, rest u = .ok () t ∧ u.Marks t := by
    refine ⟨_, rfl, fun u => ?_⟩
    cases hthrough : (u.store.arena.entity e).through with
    | none => exact ⟨u, bind_eq_ok.mpr ⟨_, u, rfl, by rw [hthrough]; rfl⟩, .of_store_eq rfl rfl⟩
    | some owner => exact ⟨_, bind_eq_ok.mpr ⟨_, u, rfl, by rw [hthrough]; rfl⟩, .markUsed u owner⟩
  rw [heq]
  split
  · obtain ⟨t, ht, hmarks⟩ := howner { s with store := s.store.markUsed e }
    exact ⟨t, bind_eq_ok.mpr ⟨(), _, rfl, ht⟩, (Pass.Marks.markUsed s e).trans hmarks⟩
  · exact howner s

theorem refer_marks (id : NodeId) (e : EntityId) (s : Pass) : ∃ t, refer id e s = .ok () t ∧ s.Marks t :=
  ⟨_, rfl, .of_store_eq rfl rfl⟩

/-- Evaluating a name that stands for a variable of a known type leaves marks, and then comes to the variable. -/
theorem after_nameOperand (pending : Pending) (hn : n.isDiscard = false)
    (hlookup : s.store.arena.lookup ctx.scope n.name = some (id, f)) (hkind : (s.store.arena.entity id).kind = .var v)
    (htype : (s.store.arena.entity id).type = some τ) :
    ∃ t, s.Marks t ∧ (nameOperand (demandFrom pending) ctx (.name n) n).after s =
      (variableOperand ctx v τ (.name n) (s.store.arena.entity id).name (some f)).after t := by
  obtain ⟨t, hrefer, ht⟩ := refer_marks n.id id s
  obtain ⟨u, hreached, hu⟩ := markReached_marks ctx id t
  have hmarks := ht.trans hu
  obtain ⟨used, hentity⟩ := hmarks.entities id
  have hdemand : demandFrom pending ctx.plainly id u = .ok () u := by
    unfold demandFrom
    refine bind_eq_ok.mpr ⟨_, u, rfl, ?_⟩
    rw [hentity, htype]
    rfl
  refine ⟨u, hmarks, ?_⟩
  have harena : arena s = .ok s.store.arena s := rfl
  have hread : entity id u = .ok (u.store.arena.entity id) u := rfl
  have harena' : arena u = .ok u.store.arena u := rfl
  simp only [nameOperand, hn, Bool.false_eq_true, if_false, after_bind harena, hlookup, after_bind hrefer,
    entityOperand, after_bind hreached, after_bind hdemand, after_bind hread, operandOf, after_bind harena']
  rw [hentity]
  simp only [hkind, htype, Option.getD_some]
  rfl

/-- A name that stands for a variable of a known type is refused if the way to its scope leaves a procedure, unless it
is a field. -/
theorem reports_name {pending : Pending} (hroom : ¬ s.collector.isFatal) (hn : n.isDiscard = false)
    (hlookup : s.store.arena.lookup ctx.scope n.name = some (id, f)) (hkind : (s.store.arena.entity id).kind = .var v)
    (htype : (s.store.arena.entity id).type = some τ) :
    (expr (demandFrom pending) ctx .value (.name n)).Reports s n.token (.captured (s.store.arena.entity id).name) ↔
      s.store.arena.isInvalid τ = false ∧ v.isField = false ∧ s.store.arena.leavesProcedure ctx.scope f := by
  obtain ⟨t, hmarks, hname⟩ := after_nameOperand pending hn hlookup hkind htype
  have hafter : ((expr (demandFrom pending) ctx .value (.name n)).after s).collector =
      ((variableOperand ctx v τ (.name n) (s.store.arena.entity id).name (some f)).after t).collector := by
    rw [expr, ← hname]
    exact collector_bind _ (fun x u => rfl) s
  rw [reports_congr hmarks.collector hafter, ← hmarks.isInvalid, ← hmarks.leavesProcedure]
  exact reports_variableOperand (hmarks.collector ▸ hroom)

theorem usingTarget_marks (resolve : Resolver) (hlookup : s.store.arena.lookup ctx.scope n.name = some (id, f)) :
    ∃ t, usingTarget resolve ctx (.name n) s = .ok (some id) t ∧ s.Marks t := by
  obtain ⟨t, hrefer, hmarks⟩ := refer_marks n.id id s
  refine ⟨_, bind_eq_ok.mpr ⟨_, s, rfl, ?_⟩, hmarks.trans (.markUsed t id)⟩
  rw [hlookup]
  exact bind_eq_ok.mpr ⟨(), t, hrefer, rfl⟩

end Check

/-! ## States of a body -/

/-- A slab that binds no variables, and has no imports and no enums, is housed. -/
theorem Arena.housed_of_plain {slab : Slab}
    (hscopes : ∀ c ∈ slab.scopes.toList, ∀ e ∈ c.bindings.entities,
      e.slab = slab.id ∧ ∃ x, slab.entities[e.index]? = some x ∧ x.kind.name ≠ "variable")
    (hentities : ∀ x ∈ slab.entities.toList, x.kind.name ≠ "import name")
    (htypes : ∀ τ ∈ slab.types.toList, τ.enumerated = []) : Arena.Housed ⟨[slab]⟩ where
  bound f e he := by
    cases hc : Arena.scope? ⟨[slab]⟩ f with
    | none => simp [scope, hc, Scope.blank, Bindings.entities, Bindings.empty] at he
    | some c =>
      obtain ⟨r, hr, hget⟩ := Option.bind_eq_some_iff.mp hc
      obtain rfl := List.mem_singleton.mp (List.mem_of_find?_eq_some hr)
      rw [scope, hc] at he
      obtain ⟨hslab, x, hx, hsort⟩ := hscopes c (Array.mem_toList_iff.mpr (Array.mem_of_getElem? hget)) e he
      exact ⟨x, by simp [entity?, slab?, hslab, hx], fun hvar => absurd hvar hsort⟩
  imports e x info hx hkind := by
    obtain ⟨r, hr, hget⟩ := Option.bind_eq_some_iff.mp hx
    obtain rfl := List.mem_singleton.mp (List.mem_of_find?_eq_some hr)
    have hplain := hentities x (Array.mem_toList_iff.mpr (Array.mem_of_getElem? hget))
    simp [hkind, EntityKind.name] at hplain
  enums t τ hτ m hm := by
    obtain ⟨r, hr, hget⟩ := Option.bind_eq_some_iff.mp hτ
    obtain rfl := List.mem_singleton.mp (List.mem_of_find?_eq_some hr)
    have hplain := htypes τ (Array.mem_toList_iff.mpr (Array.mem_of_getElem? hget))
    simp [hplain] at hm

/-- The only variables of the universe are the two fields of the context record, which it does not bind. -/
theorem Universe.housed : store.arena.Housed := by
  have hbound : store.current.scopes.toList.map (fun c => c.bindings.entities) =
      [(List.range 26 ++ [28]).map fun i => ⟨store.current.id, i⟩] := by
    decide +kernel
  have hsorts : (store.current.entities.toList.map fun x => x.kind.name == "variable") =
      List.replicate 26 false ++ [true, true, false] := by
    decide +kernel
  have harena : store.arena = ⟨[store.current]⟩ := by rw [Store.arena, store_slabs.1]
  have himports : ∀ x ∈ store.current.entities.toList, x.kind.name ≠ "import name" := by
    decide +kernel
  have htypes : ∀ τ ∈ store.current.types.toList, τ.enumerated = [] := by
    decide +kernel
  rw [harena]
  generalize store.current = slab at *
  refine Arena.housed_of_plain (fun c hc e he => ?_) himports htypes
  have hmem := List.mem_map_of_mem (f := fun c => c.bindings.entities) hc
  rw [hbound] at hmem
  rw [List.mem_singleton.mp hmem] at he
  obtain ⟨i, hi, rfl⟩ := List.mem_map.mp he
  refine ⟨rfl, ?_⟩
  have hplain : (slab.entities.toList.map fun x => x.kind.name == "variable")[i]? = some false := by
    rw [hsorts]
    clear he
    revert i
    decide
  rw [List.getElem?_map] at hplain
  obtain ⟨x, hx, hsort⟩ := Option.map_eq_some_iff.mp hplain
  exact ⟨x, by simpa using hx, by simpa using hsort⟩

theorem Pass.housed_start {store : Store} (h : store.arena.Housed) (links : List (String × Pos))
    (collector : Collector) : (Pass.start store links collector).Housed :=
  ⟨h, by simp [Pass.start]⟩

/-- An empty slab on top of others has no scopes. -/
theorem Store.scope?_empty {slabs : List Slab} {id : Nat} (hid : ∀ slab ∈ slabs, slab.id < id) (f : ScopeId) :
    (Store.arena ⟨.empty id, slabs⟩).scope? f = Arena.scope? ⟨slabs⟩ f := by
  rw [Store.scope?_arena]
  split
  case isTrue hslab =>
    have hnone : Arena.slab? ⟨slabs⟩ f.slab = none := by
      refine List.find?_eq_none.mpr fun slab hmem => ?_
      have hlt := hid slab hmem
      simp only [Slab.empty] at hslab
      simp only [beq_iff_eq]
      omega
    simp [Slab.empty, Arena.scope?, hnone]
  case isFalse => rfl

/-- Made of whole statements. -/
def Check.OfStatements (x : Check Unit) : Prop := ∀ (R : Pass → Pass → Prop) [Declares R], Check.Moves R x

/-- Made of steps that the evaluation of an expression takes, with the declarations it demands. -/
def Check.OfDemands (x : Check Unit) : Prop := ∀ (R : Pass → Pass → Prop) [Demands R], Check.Moves R x

/-- A state on the way through a body of a program: some statements were checked, and then a part of an expression. -/
structure Program.Visits (config : Config) (files : List File) (s : Pass) : Prop where
  complete : (checkFileLevel config files).1.stop = none
  run : ∃ (id : Nat) (shared : Shared) (statements demands : Check Unit) (t : Pass), 0 < id ∧
    statements.OfStatements ∧ demands.OfDemands ∧
    statements (.start ⟨.empty id, (checkFileLevel config files).1.arena.slabs⟩ shared.links shared.collector) =
      .ok () t ∧
    demands t = .ok () s

namespace Program

variable {config : Config} {files : List File} {s : Pass}

theorem housed_fileLevel (h : (checkFileLevel config files).1.stop = none) :
    (checkFileLevel config files).1.arena.Housed := by
  have hmoves := Check.moves_fileLevelHoused config files
  have hrun := Check.eq_ok_of_outcome h
  have hroom :=
    (hmoves.traced.takes _).goes (by rw [hrun]; rfl) (by simp [Pass.start, Collector.empty, Collector.isFatal])
  rw [hrun] at hroom
  exact ((hmoves.ok hrun).housed (Pass.housed_start Universe.housed _ _) hroom).arena

theorem Visits.housed (h : Visits config files s) (hroom : ¬ s.collector.isFatal) : s.store.arena.Housed := by
  obtain ⟨id, shared, statements, demands, t, hid, hstatements, hdemands, hrun, hrest⟩ := h.run
  have hfile := Check.eq_ok_of_outcome h.complete
  have hslabs := Check.slabs_fileLevel hfile
  have hbelow : ∀ slab ∈ (checkFileLevel config files).1.arena.slabs, slab.id < id := by
    intro slab hmem
    obtain rfl := List.mem_singleton.mp (hslabs.1 ▸ hmem)
    exact hslabs.2 ▸ hid
  have hstart : Pass.Housed (.start ⟨.empty id, (checkFileLevel config files).1.arena.slabs⟩ shared.links
      shared.collector) := by
    refine Pass.housed_start ((Store.shelters_of_types ?_ ?_ ?_).housed (housed_fileLevel h.complete)) _ _
    · exact fun e => Store.entity?_empty hbelow e
    · exact fun f => Store.scope?_empty hbelow f
    · exact fun _ u τ hτ => .inl ((Store.type?_empty hbelow u).symm.trans hτ)
  have hroom' : ¬ t.collector.isFatal := fun hfatal =>
    hroom (((hdemands LogGrows).ok hrest).isFatal hfatal)
  have ht := ((hstatements StaysHoused).ok hrun).housed hstart hroom'
  exact (((hdemands Pass.Shelters).ok hrest).housed ht).arena

end Program

theorem Arena.mem_of_lookup {a : Arena} {inner : ScopeId} {name : String} {e : EntityId}
    (h : a.lookup inner name = some (e, f)) : f ∈ a.chain inner ∧ e ∈ (a.scope f).bindings.entities := by
  obtain ⟨g, hg, hfound⟩ := List.exists_of_findSome?_eq_some h
  obtain ⟨e', he', heq⟩ := Option.map_eq_some_iff.mp hfound
  cases heq
  refine ⟨hg, ?_⟩
  obtain ⟨before, after, hentries, -⟩ := List.lookup_eq_some_iff.mp he'
  simp [Bindings.entities, hentries]

/-- Let a name stand for a variable of a known type, seen from a place in a body. The variable has a home. The name is
refused as a capture exactly if the variable is no exposed field, and its home is in a procedure strictly around or it
is at file level and the name was found in a procedure strictly around. As the target of `using`, the name is never
refused. -/
theorem captured_iff_home {config : Config} {files : List File} {s : Pass} (hs : Program.Visits config files s)
    (hroom : ¬ s.collector.isFatal) (pending : Pending) (ctx : Context)
    (hends : s.store.arena.Ends ctx.scope) (n : Ident) (hn : n.isDiscard = false) {id : EntityId} {f : ScopeId}
    (hlookup : s.store.arena.lookup ctx.scope n.name = some (id, f)) {v : VariableInfo}
    (hkind : (s.store.arena.entity id).kind = .var v) {τ : TypeId} (htype : (s.store.arena.entity id).type = some τ) :
    ∃ h, (s.store.arena.entity id).home = some h ∧
      ((Check.expr (Check.demandFrom pending) ctx .value (.name n)).Reports s n.token
          (.captured (s.store.arena.entity id).name) ↔
        s.store.arena.isInvalid τ = false ∧ (s.store.arena.entity id).through = none ∧
          (s.store.arena.Encloses h ctx.scope ∨ s.store.arena.IsFileLevel h ∧ s.store.arena.Encloses f ctx.scope)) ∧
      ∀ token p, ¬ (Check.usingTarget (Check.demandFrom pending) ctx (.name n)).Reports s token p := by
  obtain ⟨hmem, hbound⟩ := Arena.mem_of_lookup hlookup
  obtain ⟨x, hx, hvar⟩ := (hs.housed hroom).bound f id hbound
  have hentity : s.store.arena.entity id = x := by simp [Arena.entity, hx]
  rw [hentity] at hkind
  obtain ⟨hfield, h, hhome, hplace⟩ := hvar (by rw [hkind]; rfl)
  refine ⟨h, hentity ▸ hhome, ?_, fun token p => ?_⟩
  · have hisField : v.isField = false ↔ x.through = none := by
      have hv : x.isField = v.isField := by simp [Entity.isField, Entity.var?, hkind]
      rw [← hv, hfield]
      cases x.through <;> simp
    rw [Check.reports_name hroom hn hlookup (hentity ▸ hkind) htype, hentity, hisField,
      hends.leavesProcedure_iff hmem, ← hends.encloses_iff hmem hplace]
  · obtain ⟨t, ht, hmarks⟩ := Check.usingTarget_marks (Check.demandFrom pending) hlookup
    exact Check.not_reports (by rw [Check.after_of_ok ht, hmarks.collector]) token p

/-! ## Programs with nested procedures -/

namespace Nesting

open Builder in
/-- A procedure `outer` of some statements and then a procedure `inner` of some others. -/
def nest (before inside : List Stmt) : Build Stmt := do
  let inner ← procDecl "inner" (← signature [] []) (some (← block inside)) ⟨false, false, false⟩ none none
  procDecl "outer" (← signature [] []) (some (← block (before ++ [inner]))) ⟨false, false, false⟩ none none

/-- A file of some declarations. -/
def file (path : String) (decls : Build (List Stmt)) : File := ⟨path, (decls (.start path)).1⟩

open Builder in
/-- Storage of `outer` is read in `inner`: `outer` has `v: int` and `inner` has `y := v`. -/
def plain : List File :=
  [file "m" do
    let v ← vars ["v"] (some (← name "int")) [] false
    let y ← vars ["y"] none [← name "v"] false
    return [← nest [v] [y]]]

open Builder in
/-- A field of storage of `outer` is read in `inner`: `outer` has `v: S` and `using v`, and `inner` has `y := f`. -/
def throughField : List File :=
  [file "m" do
    let record ← typeDecl "S" (← record .struct [← field ["f"] (← name "int") false])
    let v ← vars ["v"] (some (← name "S")) [] false
    let exposing ← use [← name "v"]
    let y ← vars ["y"] none [← name "f"] false
    return [record, ← nest [v, exposing] [y]]]

open Builder in
/-- Storage of a file is read in `inner`: `outer` has `using n`, and `inner` has `y := g`. -/
def throughImport : List File :=
  [file "m" do
    let import_ ← imported "n" (some "n")
    let exposing ← use [← name "n"]
    let y ← vars ["y"] none [← name "g"] false
    return [import_, ← nest [exposing] [y]],
  file "n" do return [← vars ["g"] (some (← name "int")) [] false]]

open Builder in
/-- Storage of `outer` is exposed in `inner`: `outer` has `v: S`, and `inner` has `using v`. -/
def exposedInside : List File :=
  [file "m" do
    let record ← typeDecl "S" (← record .struct [← field ["f"] (← name "int") false])
    let v ← vars ["v"] (some (← name "S")) [] false
    let exposing ← use [← name "v"]
    return [record, ← nest [v] [exposing]]]

/-- The scope of the body of `outer`. -/
def outerBody : ScopeId := ⟨1, 0⟩

/-- The scope of the body of `inner`. -/
def innerBody : ScopeId := ⟨1, 2⟩

/-- The home of the storage that a name stands for. Fields have the storage of the variable that exposed them. -/
def storage? (a : Arena) (scope : ScopeId) (name : String) : Option ScopeId := do
  let (e, _) ← a.lookup scope name
  (a.entity ((a.entity e).through.getD e)).home

/-- The body of `outer` in the plain program. -/
def body : Body := (checkFileLevel .standard plain).2.queue.head (by decide +kernel)

/-- The state before that body is checked. -/
def start : Pass := .start ⟨.empty 1, (checkFileLevel .standard plain).1.arena.slabs⟩ [] (.empty 10)

/-- The state after it. -/
def finish : Pass := ((Check.bodyAndNested .standard body).outcome start).2

/-- The name that `inner` reads. -/
def occurrence : Ident := ⟨3, ⟨"v", ⟨"m", 4, 1⟩, ⟨9, 1⟩⟩⟩

theorem visits : Program.Visits .standard plain finish where
  complete := by decide +kernel
  run := by
    refine ⟨1, ⟨[], .empty 10⟩, Check.bodyAndNested .standard body, pure (), finish, Nat.one_pos, ?_, ?_, ?_, rfl⟩
    · exact fun R _ => Check.moves_bodyAndNested .standard body
    · exact fun R _ => Check.moves_pure ()
    · exact Check.eq_ok_of_outcome (by decide +kernel)

theorem finish_spec :
    ¬ finish.collector.isFatal ∧ finish.store.arena.Ends innerBody ∧
      finish.store.arena.lookup innerBody "v" = some (⟨1, 0⟩, outerBody) ∧
      (finish.store.arena.entity ⟨1, 0⟩).kind = .var ⟨true, false, false, false, 0⟩ ∧
      (finish.store.arena.entity ⟨1, 0⟩).type = some (.basic .int) ∧
      finish.store.arena.isInvalid (.basic .int) = false ∧ (finish.store.arena.entity ⟨1, 0⟩).through = none ∧
      (finish.store.arena.entity ⟨1, 0⟩).name = "v" ∧ (finish.store.arena.entity ⟨1, 0⟩).home = some outerBody ∧
      finish.store.arena.Encloses outerBody innerBody := by
  decide +kernel

end Nesting

open Nesting in
/-- Seen from `inner`, storage of `outer` is refused, and may be the target of `using`. -/
theorem captured_iff_home_of_plain :
    (finish.store.arena.entity ⟨1, 0⟩).home = some outerBody ∧ finish.store.arena.Encloses outerBody innerBody ∧
      (Check.expr (Check.demandFrom finish.decls) (.outer .standard innerBody) .value (.name occurrence)).Reports finish
        occurrence.token (.captured "v") ∧
      ∀ token p, ¬ (Check.usingTarget (Check.demandFrom finish.decls) (.outer .standard innerBody)
        (.name occurrence)).Reports finish token p := by
  obtain ⟨hroom, hends, hlookup, hkind, htype, hvalid, hthrough, hname, hhome, hencloses⟩ := finish_spec
  obtain ⟨h, hhome', hcaptured, hexposed⟩ :=
    captured_iff_home visits hroom finish.decls (.outer .standard innerBody) hends
    occurrence (by decide +kernel) hlookup hkind htype
  obtain rfl : outerBody = h := Option.some.inj (hhome.symm.trans hhome')
  refine ⟨hhome, hencloses, ?_, hexposed⟩
  rw [hname] at hcaptured
  exact hcaptured.mpr ⟨hvalid, hthrough, .inl hencloses⟩

open Nesting in
/-- The check misses what it is for in three ways. A field of storage of `outer` is read in `inner`, and storage of
`outer` is exposed there, without an error. Storage of a file is refused in `inner` because `outer` brought its name
in. -/
theorem capture_check_goes_by_name :
    ((checkFiles .standard throughField).collector.log = [] ∧
      storage? (checkFiles .standard throughField).arena innerBody "f" = some outerBody ∧
      (checkFiles .standard throughField).arena.Encloses outerBody innerBody) ∧
    ((checkFiles .standard exposedInside).collector.log = [] ∧
      storage? (checkFiles .standard exposedInside).arena innerBody "v" = some outerBody ∧
      (checkFiles .standard exposedInside).arena.Encloses outerBody innerBody) ∧
    ((checkFiles .standard throughImport).collector.log =
        [⟨(Problem.captured "g").error ⟨"g", ⟨"m", 6, 1⟩, ⟨19, 1⟩⟩, true⟩] ∧
      storage? (checkFiles .standard throughImport).arena innerBody "g" = some ⟨0, 2⟩ ∧
      (checkFiles .standard throughImport).arena.IsFileLevel ⟨0, 2⟩) := by
  decide +kernel

end Statics
