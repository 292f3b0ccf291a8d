import Statics.Proofs.Initialization.Reading
import Statics.Proofs.Journal.Programs

/-!
# Initialization without cycles

A declaration is checked when its entity is first needed, and without a written type its entities get theirs only
after their values were read. By then all that the values mention was checked. Hence in an accepted program the
declarations of variables and constants without a written type depend on one another in no cycle:
`initialization_cycles_annotated`.

Where a type is written, the entities have it before their values are read, and a cycle through them goes unnoticed:
`initialization_cycle_accepted`.
-/

namespace Statics

variable {pending : Pending} {f s : Pass} {scope : ScopeId} {written : Option Expr}

/-! ## Demands -/

/-- Once the declaration of an entity was entered, the others are pending. -/
theorem Pass.Prepared.enter {rest : Pending} {e : EntityId} {d : Declaration} {t : Pass} (h : s.Prepared pending)
    (taken : Check.take? e pending = some (d, rest))
    (ht : Statics.Advances { s with journal := .enter e :: s.journal } t) (hj : t.Journaled []) : t.Prepared rest where
  declared := ht.declared (h.declared.grows (Records.record s _) rfl)
  subset := ht.decls ▸ List.Subset.trans (Check.subset_of_take? taken).2 h.subset
  journaled := hj
  covered e' he' := by
    rw [ht.decls] at he'
    rcases h.covered e' he' with htyped | henter | hpending
    · exact .inl (ht.grows.isSome_type htyped)
    · exact .inr (.inl (ht.journal.subset (List.mem_cons_of_mem _ henter)))
    · have hperm := ((Check.perm_of_take? taken).map Prod.fst).mem_iff.mp hpending
      rcases List.mem_cons.mp hperm with rfl | hrest
      · exact .inr (.inl (ht.journal.subset List.mem_cons_self))
      · exact .inr (.inr hrest)

namespace Check

variable {f : Pass} {pending rest : Pending} {ctx : Context} {e : EntityId} {d : Declaration}
  {s t : Pass}

/-- A demand for an entity that is being checked is an error. -/
theorem Clear.demandFrom_inactive (h : Clean (demandFrom pending ctx e) s () t)
    (hnone : (s.store.arena.entity e).type = none) : e ∉ s.active := by
  have hset := moves_setType (R := LogGrows) (F := fun _ => True) (e := e) trivial .invalid
  intro hactive
  unfold demandFrom at h
  have h := h.readEntity
  rw [if_neg (by simp [hnone])] at h
  have h := h.read
  rw [if_pos (List.contains_iff_mem.mpr hactive)] at h
  obtain ⟨_, _, hcycle, -⟩ := h.split (by grind)
  exact absurd hcycle (refuses_bind (moves_entity e) fun _ => refuses_report _ _).not_clean

/-- What is declared has a type once it was demanded without an error. -/
theorem typed_demandFrom (h : Clean (demandFrom pending ctx e) s () t) (hs : s.Prepared pending)
    (he : e ∈ s.decls.map Prod.fst) : (t.store.arena.entity e).type.isSome := by
  rcases h.demandFrom_cases with ⟨htyped, rfl⟩ | ⟨hnone, ⟨hnot, rfl⟩ | ⟨d, rest, u, taken, hrun, rfl⟩⟩
  · exact htyped
  · rcases hs.covered e he with htyped | henter | hpending
    · exact htyped
    · exact ((hs.journaled.entered e henter).2).resolve_right (h.demandFrom_inactive hnone)
    · simpa [hnot] using isSome_take? hpending
  · have hsuits := hs.declared _ (hs.subset (subset_of_take? taken).1)
    have htypes := types_declaration (moves_demandFrom rest) (ctx.within d.scope) hsuits.among
    have htyped : (u.store.arena.entity e).type.isSome := htypes.typed hrun.run hsuits.own
    exact htyped

/-! ## Declarations -/

end Check

/-- A state in which the check of a declaration is about to read its values, while the others in `rest` are pending.
It may give types to the entities in `own`. -/
structure Pass.AtValues (f : Pass) (rest : List (EntityId × Declaration)) (own : List EntityId) (e : EntityId)
    (d : Declaration) (s : Pass) : Prop where
  last : f.Journaled []
  mem : (e, d) ∈ f.decls
  decls : s.decls = f.decls
  prepared : s.Prepared rest
  own : ∀ v ∈ own, v ∈ e :: d.variables ∧ s.Told v
  founded : f.Founded s

namespace Pass.AtValues

open Check

variable {α β : Type} {f : Pass} {rest : Pending} {own : List EntityId} {e : EntityId}
  {d : Declaration} {s t : Pass}

/-- A declaration with a written type, or without values, is rooted from the start. -/
theorem founded_plain (h : f.AtValues rest own e d s) (hd : d.isAnnotated = false → d.values = []) {x : Check α} {a : α}
    (hx : Moves (Founds f rest own) x) (hrun : Clean x s a t) (hroom : t.HasRoom) (ht : t.Steady f) : f.Founded t := by
  refine (hx.ok hrun.run).founds h.prepared h.decls (fun v hv => ⟨(h.own v hv).2, ?_⟩) hrun.silent hroom ht h.founded
  refine .of_needs h.last h.mem (h.own v hv).1 fun hplain y _ value hvalue => ?_
  rw [hd hplain] at hvalue
  cases hvalue

/-- Any other is rooted once its values were read. -/
theorem founded_values (h : f.AtValues rest own e d s) {x : Check α} {g : α → Check β} {b : β}
    (hx : Meets f rest d.scope d.values x) (hg : ∀ a, Moves (Founds f rest own) (g a)) (hrun : Clean (x >>= g) s b t)
    (hroom : t.HasRoom) (ht : t.Steady f) : f.Founded t := by
  obtain ⟨a, s₁, hread, hrun⟩ := hrun.bind hx.moves.log fun a => (hg a).mono fun _ _ h => h.log
  have hs₁ := hx.moves.ok hread.run
  have hrest := (hg a).ok hrun.run
  have hroom₁ : s₁.HasRoom := fun hfatal => hroom (hrest.log.isFatal hfatal)
  have hsteady₁ := hrest.steady.trans ht
  have hfounded := hs₁.founds h.prepared h.decls (by simp) hread.silent hroom₁ hsteady₁ h.founded
  refine hrest.founds (h.prepared.later hs₁.toRecounts (by simp)) (hs₁.decls.trans h.decls) (fun v hv => ?_) hrun.silent
    hroom ht hfounded
  refine ⟨(h.own v hv).2.later hs₁.decls hs₁.journal, .of_needs h.last h.mem (h.own v hv).1 ?_⟩
  intro _ y hy value hvalue hmentions
  rw [← h.decls] at hy
  exact hfounded y (hs₁.decls ▸ hy) (hx.typed hread h.prepared hsteady₁ value hvalue y hy hmentions)

end Pass.AtValues

namespace Check

section

variable {f : Pass} {rest : Pending} {ctx : Context} {e : EntityId} {own : List EntityId} {s t : Pass}
  {resolve : Resolver} (hr : Resolves f rest resolve)

include hr

theorem founds_expr (ctx : Context) (reading : Reading) (x : Expr) :
    Moves (Founds f rest own) (expr resolve ctx reading x) :=
  (moves_expr hr.moves ctx reading x).mono fun _ _ h => h.owning

theorem meets_operands (ctx : Context) (es : List Expr) : Meets f rest ctx.scope es (operands resolve ctx es) := by
  induction es with
  | nil => exact (moves_pure _).meets
  | cons e tail ih =>
    unfold operands
    exact meets_bind (meets_expr hr ctx .value e) fun x => moves_arena.bindMeets fun a => ih.bind fun _ => moves_pure _

theorem founded_constant {value : Option Expr} (hs : f.AtValues rest [e] e (.constant scope written value) s)
    (h : Clean (constant resolve (ctx.within scope) e written value) s () t) (hroom : t.HasRoom) (ht : t.Steady f) :
    f.Founded t := by
  have hall : Moves (Founds f rest [e]) (constant resolve (ctx.within scope) e written value) :=
    moves_constant (founds_expr hr _) (List.mem_singleton_self e)
  cases written with
  | some type => exact hs.founded_plain (by simp [Declaration.isAnnotated]) hall h hroom ht
  | none =>
    cases value with
    | none => exact hs.founded_plain (by simp [Declaration.values]) hall h hroom ht
    | some init =>
      exact hs.founded_values (g := fun x => initConstant e x init) (meets_expr hr (ctx.within scope) .value init)
        (fun x => moves_initConstant (List.mem_singleton_self e) x init) h hroom ht

theorem founded_readVariables {entities : List EntityId} {token : Token} {values : List Expr}
    (hs : f.AtValues rest entities e (.vars scope entities written values) s)
    (h : Clean (readVariables resolve (ctx.within scope) entities token written values) s () t) (hroom : t.HasRoom)
    (ht : t.Steady f) : f.Founded t := by
  have hall : Moves (Founds f rest entities) (readVariables resolve (ctx.within scope) entities token written values) :=
    moves_readVariables (founds_expr hr _) (fun _ he => he) token written values
  cases written with
  | some type => exact hs.founded_plain (by simp [Declaration.isAnnotated]) hall h hroom ht
  | none =>
    cases values with
    | nil => exact hs.founded_plain (by simp [Declaration.values]) hall h hroom ht
    | cons init inits =>
      have hinit (xs : List (Operand × Expr)) : Moves (Founds f rest entities) (initEach entities xs) :=
        moves_initEach (fun _ he => he) xs
      exact hs.founded_values (meets_operands hr (ctx.within scope) (init :: inits)) (fun xs => by grind) h hroom ht

/-- Variables are visited before their values are read, and none of them was before. -/
theorem founded_varDecl {entities : List EntityId} {values : List Expr} (hf : f.Journaled []) (hs : s.Prepared pending)
    (taken : take? e pending = some (.vars scope entities written values, rest)) (hdecls : s.decls = f.decls)
    (hj : Pass.Journaled [e] { s with journal := .enter e :: s.journal }) (hfounded : f.Founded s)
    (h : Clean (varDecl resolve (ctx.within scope) entities written values) { s with journal := .enter e :: s.journal }
    () t) (hroom : t.HasRoom) (ht : t.Steady f) : f.Founded t := by
  have hmem := hs.subset (subset_of_take? taken).1
  have hsuits := hs.declared _ hmem
  have hread (token : Token) : Moves LogGrows
    (readVariables resolve (ctx.within scope) entities token written values) :=
    (moves_readVariables (R := Founds f rest entities) (founds_expr hr _) (fun _ he => he) token written values).mono
      fun _ _ h => h.log
  have hvisit : Moves LogGrows (visit entities) := moves_visit (F := fun _ => True) fun _ _ => trivial
  have hset : Moves LogGrows (setTypes .invalid entities) := moves_setTypes (F := fun _ => True) _ fun _ _ => trivial
  have hrecord := moves_record (R := LogGrows)
  unfold varDecl at h
  have h := h.readArena
  cases entities with
  | nil => simpa [Declaration.variables] using hsuits.among rfl
  | cons first others =>
    dsimp only at h
    split at h
    case isTrue =>
      obtain ⟨_, _, hcycle, -⟩ := h.bind (by grind) fun _ => hset
      exact absurd hcycle (refuses_bind (moves_entity first) fun _ => refuses_report _ _).not_clean
    case isFalse hany =>
      obtain ⟨_, s₁, hvisited, h⟩ := h.bind hvisit fun _ => by grind
      obtain ⟨_, s₂, hrecorded, h⟩ := h.bind (hrecord _) fun _ => hread _
      have hown : ∀ v ∈ first :: others, s.store.Owns v "variable" := hsuits.vars
      obtain ⟨s₁', hrun, hgrows, hvisits⟩ := exists_visits (s := { s with journal := .enter e :: s.journal }) hown
      cases hvisited.run.symm.trans hrun
      cases hrecorded.run
      have hgroup : ∀ p ∈ s.decls, ∀ v ∈ first :: others, v ∈ p.1 :: p.2.variables →
          p.2.mark p.1 = .read (first :: others) := fun p hp v hv hpv => hj.mark_of_group hmem hv hp hpv
      have hj₂ : Pass.Journaled [] { s₁ with journal := .read (first :: others) :: s₁.journal } := by
        refine hj.read hvisits (fun v hv hvisit => ?_) (fun v hv => (hown v hv).slab) ?_ hgroup
        · exact hany (List.any_eq_true.mpr ⟨v, hv, hvisit⟩)
        · simpa [Declaration.variables] using hsuits.among rfl
      have hadvances : Advances { s with journal := .enter e :: s.journal }
          { s₁ with journal := .read (first :: others) :: s₁.journal } :=
        ⟨hgrows.trans (Records.record s₁ _), hvisits.decls, hvisits.journal ▸ List.suffix_cons ..⟩
      have hvalues : f.AtValues rest (first :: others) e (.vars scope (first :: others) written values)
          { s₁ with journal := .read (first :: others) :: s₁.journal } := by
        refine ⟨hf, hdecls ▸ hmem, hvisits.decls.trans hdecls, hs.enter taken hadvances hj₂,
          fun v hv => ⟨List.mem_cons_of_mem _ hv, fun p hp hpv => ?_⟩, fun v hv htyped => ?_⟩
        · rw [hgroup p (hvisits.decls ▸ hp) v hv hpv]
          exact List.mem_cons_self
        · have hv : v ∈ s.decls.map Prod.fst := hvisits.decls ▸ hv
          have htype : (s₁.store.arena.entity v).type = (s.store.arena.entity v).type :=
            hvisits.type_eq (hs.isSome_entity hv)
          exact hfounded v hv (htype ▸ htyped)
      exact founded_readVariables hr hvalues h hroom ht

/-- The check of a declaration founds what it types. -/
theorem founded_declaration {d : Declaration} (hf : f.Journaled []) (hs : s.Prepared pending)
    (taken : take? e pending = some (d, rest)) (hnone : (s.store.arena.entity e).type = none) (hactive : e ∉ s.active)
    (hdecls : s.decls = f.decls) (hfounded : f.Founded s)
    (h : Clean (declaration resolve (ctx.within d.scope) e d) { s with journal := .enter e :: s.journal } () t)
    (hroom : t.HasRoom) (ht : t.Steady f) : f.Founded t := by
  have hmem := hs.subset (subset_of_take? taken).1
  have hj := hs.journaled.enter hmem hnone hactive
  have hdeclared : Pass.Declared { s with journal := .enter e :: s.journal } :=
    hs.declared.grows (Records.record s _) rfl
  -- Everything but variables is told of when its check begins.
  have hvalues (hsort : d.sort ≠ "variable") : f.AtValues rest [e] e d { s with journal := .enter e :: s.journal } := by
    have htold : Pass.Told { s with journal := .enter e :: s.journal } e :=
      hj.told_of_mark hdeclared hmem (Declaration.mark_of_sort hsort e ▸ List.mem_cons_self)
    have hclosed := hj.close (by simpa using htold)
    exact ⟨hf, hdecls ▸ hmem, hdecls, hs.enter taken (Reports.refl _) hclosed, by simpa using htold, hfounded⟩
  have hown : e ∈ [e] := List.mem_singleton_self e
  cases d with
  | constant scope written value => exact founded_constant hr (hvalues (by simp [Declaration.sort])) h hroom ht
  | vars scope entities written values => exact founded_varDecl hr hf hs taken hdecls hj hfounded h hroom ht
  | type scope type =>
    refine (hvalues (by simp [Declaration.sort])).founded_plain (by simp [Declaration.values]) ?_ h hroom ht
    exact moves_namedType (fun reading => founds_expr hr _ reading type) hown
  | proc scope d =>
    refine (hvalues (by simp [Declaration.sort])).founded_plain (by simp [Declaration.values]) ?_ h hroom ht
    refine moves_procedure (fun scope => ?_) hown (fun _ _ _ s => ?_) fun _ _ _ _ s => ?_
    · exact (moves_anySignature hr.moves).mono fun _ _ h => h.owning
    · exact .of_rests (.of_store_eq (Demands.claimLink s _) rfl rfl rfl) (.of_store_eq rfl) (.of_collector_eq rfl)
    · exact .of_rests (.of_store_eq (Demands.enqueue s _) rfl rfl rfl) (.of_store_eq rfl) (.of_collector_eq rfl)

end

/-! ## All demands -/

/-- Demands found what they type, and type what is declared. -/
theorem founds_demandFrom (hf : f.Journaled []) (pending : Pending) : Resolves f pending (demandFrom pending) := by
  refine ⟨fun ctx e => ?_, typed_demandFrom⟩
  · refine ⟨fun s => ⟨?_, (moves_demandFrom pending ctx e).along s, (moves_demandFrom pending ctx e).along s, ?_⟩,
      (moves_demandFrom (R := LogGrows) pending ctx e).traced⟩
    · exact (moves_recounts (moves_demandFrom pending ctx e) fun hs hp hj =>
        journaled_demandFrom ctx e hs hp hj).along s
    · intro hs hdecls _ hsilent hroom ht hfounded
      cases hrun : demandFrom pending ctx e s with
      | error stop t =>
        rw [after_of_error hrun] at hroom
        exact absurd ((moves_demandFrom (R := LogGrows) pending ctx e).fatal hrun) hroom
      | ok _ t =>
        rw [after_of_ok hrun] at hsilent hroom ht ⊢
        have hclean : Clean (demandFrom pending ctx e) s () t := ⟨hrun, hsilent⟩
        rcases hclean.demandFrom_cases with ⟨-, rfl⟩ | ⟨hnone, ⟨-, rfl⟩ | ⟨d, rest, u, taken, hdeclaration, rfl⟩⟩
        · exact hfounded
        · exact hfounded
        · have hlt := length_lt_of_take? taken
          have hr := founds_demandFrom hf rest
          have hfounded' : f.Founded u :=
            founded_declaration hr hf hs taken hnone (hclean.demandFrom_inactive hnone) hdecls hfounded hdeclaration
              hroom ht
          exact hfounded'
termination_by pending.length

theorem founds_demand (hf : f.Journaled []) (ctx : Context) (e : EntityId) :
    Moves (Founds f f.decls []) (demand ctx e) := by
  refine ⟨fun s => ⟨(recounts_demand f.decls ctx e).along s, (moves_demand ctx e).along s, (moves_demand ctx e).along s,
    fun hs hdecls => ?_⟩, (moves_demand (R := LogGrows) ctx e).traced⟩
  have hfrom := ((founds_demandFrom hf s.decls).moves ctx e).along s
  exact hfrom.founds (hdecls ▸ hs) hdecls

theorem founds_demandTurn (hf : f.Journaled []) (ctx : Context) (turn : Turn) (es : List EntityId) :
    Moves (Founds f f.decls []) (demandTurn ctx turn es) := by
  induction es with
  | nil => exact moves_pure _
  | cons e rest ih =>
    have hdemand := founds_demand hf ctx e
    unfold demandTurn
    grind

end Check

/-! ## Programs -/

/-- No milestone was written down. -/
def Pass.Unmarked (s t : Pass) : Prop := t.journal = s.journal

namespace Pass.Unmarked

instance : Enters Pass.Unmarked where
  toBinds := .of_still (R := Pass.Grows) (fun _ hst => hst.journal) (fun h h' => Eq.trans h' h) fun _ _ _ _ => rfl
  newWaiting _ _ _ := rfl
  await _ _ := rfl
  hoist _ _ := rfl

instance : ReadsFiles Pass.Unmarked where
  openFile _ _ := rfl
  newImport _ _ _ _ := rfl
  addImport _ _ := rfl
  warn _ _ _ := rfl

end Pass.Unmarked

namespace Check

/-- When the file level starts to check declarations, none is checked. -/
theorem prepared_collected {config : Config} {files : List File} {es : List EntityId} {s₁ s₂ s₃ : Pass}
    (hopen : openFiles files (Program.opening config) = .ok () s₁) (hcollect : collectFiles files s₁ = .ok es s₂)
    (hresolve : resolveFiles files s₂ = .ok () s₃) (f : Pass) : s₃.Prepared s₃.decls ∧ f.Founded s₃ := by
  have hkeeps {R : Pass → Pass → Prop} [ReadsFiles R] [Registers R] : R (Program.opening config) s₃ :=
    Reports.trans (Reports.trans ((moves_openFiles files).ok hopen) (moves_collectFiles.ok hcollect))
      (moves_resolveFiles.ok hresolve)
  have haccounts : Accounts (Program.opening config) s₃ := hkeeps
  have hunmarked : Pass.Unmarked (Program.opening config) s₃ := hkeeps
  obtain ⟨hdeclared, hj⟩ := Pass.journaled_start Universe.store [] (.empty config.errorCap)
  obtain ⟨hdeclared, hj⟩ := haccounts.keeps hdeclared hj
  refine ⟨⟨hdeclared, List.Subset.refl _, hj, fun e he => .inr (.inr he)⟩, fun e he htyped => ?_⟩
  obtain ⟨p, hp, rfl⟩ := List.mem_map.mp he
  have htold := hj.told p hp (by simp) (.inl htyped)
  rw [hunmarked] at htold
  cases htold

/-- Every declared entity that has a type when the file level ends is rooted. -/
theorem founded_fileLevel {config : Config} {files : List File}
    (h : Clean (fileLevel config files) (Program.opening config) () s) (hs : s.Journaled []) : s.Founded s := by
  have hroom : s.HasRoom := by
    refine Pass.HasRoom.of_silent (s := Program.opening config) ?_ ((moves_fileLevel config files).ok h.run) h.silent
    simp [Pass.HasRoom, Program.opening, Pass.start, Collector.empty, Collector.isFatal]
  have htail (es : List EntityId) : Moves (Founds s s.decls []) (do
      demandTurn (.outer config .global) .types es
      demandTurn (.outer config .global) .constants es
      demandTurn (.outer config .global) .procedures es
      demandTurn (.outer config .global) .vars es
      entryPoint config files) :=
    moves_bind (founds_demandTurn hs _ _ es) fun _ => moves_bind (founds_demandTurn hs _ _ es) fun _ =>
      moves_bind (founds_demandTurn hs _ _ es) fun _ => moves_bind (founds_demandTurn hs _ _ es) fun _ =>
        moves_entryPoint
  have hlog (es : List EntityId) := (htail es).log
  have hopens : Moves LogGrows (openFiles files) := moves_openFiles files
  unfold fileLevel at h
  obtain ⟨_, s₁, hopen, h⟩ := h.bind hopens fun _ => by grind
  obtain ⟨es, s₂, hcollect, h⟩ := h.bind moves_collectFiles fun _ => by grind
  obtain ⟨_, s₃, hresolve, h⟩ := h.bind moves_resolveFiles fun _ => hlog es
  obtain ⟨hprepared, hfounded⟩ := prepared_collected hopen.run hcollect.run hresolve.run s
  have hfounds := (htail es).ok h.run
  exact hfounds.founds (hfounds.decls ▸ hprepared) hfounds.decls.symm (by simp) h.silent hroom (Reports.refl s) hfounded

end Check

/-- No chain of dependencies leads from an entity back to it if it is rooted. -/
theorem Pass.Rooted.acyclic {e : EntityId} (h : s.Rooted e) :
    ¬ Relation.TransGen (s.Needs fun d => d.isAnnotated = false) e e := by
  rw [← Relation.transGen_swap]
  have hacc := h.transGen
  clear h
  induction hacc with
  | intro x _ ih => exact fun hx => ih x hx hx

/-- In an accepted program every cycle of initialization passes through a declaration with a written type: the
dependencies of the other variables and constants of its files on one another have no cycle. -/
theorem initialization_cycles_annotated {config : Config} {files : List File} (h : (checkFiles config files).Accepted)
    (e : EntityId) :
    ¬ Relation.TransGen ((Program.fileEnd config files).Needs fun d => d.isAnnotated = false) e e := by
  intro hcycle
  obtain ⟨s, passes, hruns⟩ := h.runs
  obtain ⟨s', passes', hcompletes⟩ := Program.completes_of_stop h.complete
  obtain rfl : s' = Program.fileEnd config files := hcompletes.merges.1
  obtain rfl : Program.fileEnd config files = s := Check.after_of_ok hruns.fileLevel.run
  obtain ⟨hdeclared, hj⟩ := Program.journaled_end (.inl rfl)
  have hfounded := Check.founded_fileLevel hruns.fileLevel hj
  obtain ⟨d, hmem⟩ : ∃ d, (e, d) ∈ (Program.fileEnd config files).decls := by
    obtain ⟨y, ⟨d, hmem, -⟩, -⟩ := Relation.TransGen.head'_iff.mp hcycle
    exact ⟨d, hmem⟩
  refine Pass.Rooted.acyclic (hfounded e (List.mem_map_of_mem hmem) ?_) hcycle
  obtain ⟨x, hx, -⟩ := (hdeclared _ hmem).own.entity
  rw [Arena.entity_eq hx, Option.isSome_iff_ne_none]
  exact fun hnone => ((hcompletes.complete _ List.mem_cons_self).2).typed e ⟨x, hx, hnone⟩

/-! ## Chains and cycles -/

/-- Whether the declaration of one entity, among those in `D`, has the bare name of another as a value. -/
def Pass.copies (s : Pass) (D : Declaration → Bool) (x y : EntityId) : Bool :=
  s.decls.any fun p => p.1 == x && D p.2 && s.decls.any (fun q => q.1 == y) && p.2.values.any fun value =>
    match value with
    | .name n => (s.store.arena.lookup p.2.scope n.name).map Prod.fst == some y
    | _ => false

theorem Pass.needs_of_copies {D : Declaration → Bool} {D' : Declaration → Prop} (hD : ∀ d, D d → D' d)
    {x y : EntityId} (h : s.copies D x y) : s.Needs D' x y := by
  simp only [copies, List.any_eq_true, Bool.and_eq_true, beq_iff_eq] at h
  obtain ⟨⟨_, d⟩, hmem, ⟨⟨rfl, hd⟩, q, hq, rfl⟩, value, hvalue, hname⟩ := h
  refine ⟨d, hmem, hD d hd, List.mem_map_of_mem hq, value, hvalue, ?_⟩
  split at hname
  case h_1 n =>
    obtain ⟨⟨_, found⟩, hlookup, rfl⟩ := Option.map_eq_some_iff.mp (beq_iff_eq.mp hname)
    exact .name hlookup
  case h_2 => cases hname

namespace Chained

open Builder in
/-- One file with a variable that stands for the next one, which stands for a constant. -/
def files : List File := single do
  return [← vars ["a"] none [← name "b"] false, ← vars ["b"] none [← name "c"] false, ← consts ["c"] none [← int .zero]]

theorem spec : (checkFiles .standard files).Accepted ∧
    (Program.fileEnd .standard files).copies (fun d => !d.isAnnotated) ⟨0, 29⟩ ⟨0, 30⟩ ∧
    (Program.fileEnd .standard files).copies (fun d => !d.isAnnotated) ⟨0, 30⟩ ⟨0, 31⟩ := by
  decide +kernel

end Chained

/-- A chain of two dependencies does not come back to where it began. -/
theorem initialization_cycles_annotated_chained :
    (checkFiles .standard Chained.files).Accepted ∧ ∃ e e', Relation.TransGen
      ((Program.fileEnd .standard Chained.files).Needs fun d => d.isAnnotated = false) e e' ∧
      ¬ Relation.TransGen ((Program.fileEnd .standard Chained.files).Needs fun d => d.isAnnotated = false) e e := by
  obtain ⟨haccepted, hfirst, hsecond⟩ := Chained.spec
  refine ⟨haccepted, ⟨0, 29⟩, ⟨0, 31⟩, ?_, initialization_cycles_annotated haccepted _⟩
  exact .tail (.single (Pass.needs_of_copies (by simp) hfirst)) (Pass.needs_of_copies (by simp) hsecond)

namespace Copied

open Builder in
/-- One file with two variables of a written type that stand for each other. -/
def files : List File := single do
  return [← vars ["a"] (some (← name "int")) [← name "b"] false, ← vars ["b"] (some (← name "int")) [← name "a"] false]

theorem spec : (checkFiles .standard files).Accepted ∧
    ((Program.fileEnd .standard files).store.arena.entity ⟨0, 29⟩).kind.name = "variable" ∧
    (Program.fileEnd .standard files).copies (fun _ => true) ⟨0, 29⟩ ⟨0, 30⟩ ∧
    (Program.fileEnd .standard files).copies (fun _ => true) ⟨0, 30⟩ ⟨0, 29⟩ := by
  decide +kernel

end Copied

/-- A program is accepted although a variable in it is initialized by way of itself. -/
theorem initialization_cycle_accepted :
    (checkFiles .standard Copied.files).Accepted ∧
      ∃ e, ((Program.fileEnd .standard Copied.files).store.arena.entity e).kind.name = "variable" ∧
        Relation.TransGen ((Program.fileEnd .standard Copied.files).Needs fun _ => True) e e := by
  obtain ⟨haccepted, hvariable, hfirst, hsecond⟩ := Copied.spec
  refine ⟨haccepted, ⟨0, 29⟩, hvariable, ?_⟩
  exact .tail (.single (Pass.needs_of_copies (by simp) hfirst)) (Pass.needs_of_copies (by simp) hsecond)

end Statics
