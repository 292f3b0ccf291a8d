import Mathlib.Data.List.Perm.Subperm
import Statics.Proofs.Completion.Programs

/-!
# Every declaration is checked once

Declarations are entered for entities that are new, so the journal has nothing to tell of them yet. With what demands
keep, every pass of a program keeps its journal to its state, also one that stops: `Program.journaled_end`. Since the
passes work on different slabs, their journals together have every milestone of a check once at most, and in a program
whose check was not cut short once for every declaration: `declarations_checked_once`.
-/

namespace Statics

variable {s : Pass} {passes : List Pass}

/-! ## Entering declarations -/

/-- New entities, which no milestone and no declaration but `d` is about. -/
structure Pass.Unmet (s : Pass) (group : List EntityId) (d : Declaration) : Prop where
  present : ∀ e ∈ group, (s.store.arena.entity? e).isSome
  untyped : ∀ e ∈ group, (s.store.arena.entity e).type = none
  unvisited : ∀ e ∈ group, ¬ (s.store.arena.entity e).isVisited
  unentered : ∀ e ∈ group, .enter e ∉ s.journal
  alone : ∀ e ∈ group, ∀ p ∈ s.decls, e ∈ p.1 :: p.2.variables → p.2 = d

/-- Entities that were allocated, and wait. -/
def Pass.Fresh (s t : Pass) (group : List EntityId) : Prop := ∀ e ∈ group, s.store.arena.entity? e = none ∧
  ∃ x, t.store.arena.entity? e = some x ∧ x.type = none ∧ ¬ x.isVisited

namespace Pass.Unmet

variable {s t : Pass} {group : List EntityId} {d : Declaration}

theorem still (h : s.Unmet group d) (ht : Rests s t) : t.Unmet group d where
  present e he := ht.isSome (h.present e he)
  untyped e he := (ht.type_eq (h.present e he)).trans (h.untyped e he)
  unvisited e he := by
    rw [ht.isVisited_eq (h.present e he) (by simp)]
    exact h.unvisited e he
  unentered e he := by
    rw [ht.journal]
    exact h.unentered e he
  alone e he p hp := h.alone e he p (ht.decls ▸ hp)

/-- Nothing is known of entities that were not there before. -/
theorem of_fresh (hj : s.Journaled []) (ht : Rests s t) (h : s.Fresh t group) : t.Unmet group d := by
  have hread (e : EntityId) (he : e ∈ group) : ∃ x, t.store.arena.entity e = x ∧ x.type = none ∧ ¬ x.isVisited := by
    obtain ⟨-, x, hx, hnone, hvisited⟩ := h e he
    exact ⟨x, Arena.entity_eq hx, hnone, hvisited⟩
  have habsent (e : EntityId) (he : e ∈ group) (p : EntityId × Declaration)
    (hp : p ∈ s.decls) : e ∉ p.1 :: p.2.variables := by
    intro hmem
    have hsome := hj.present p hp e hmem
    rw [(h e he).1] at hsome
    cases hsome
  refine ⟨fun e he => ?_, fun e he => ?_, fun e he => ?_, fun e he henter => ?_, fun e he p hp hmem => ?_⟩
  · obtain ⟨-, x, hx, -⟩ := h e he
    simp [hx]
  · obtain ⟨x, hx, hnone, -⟩ := hread e he
    rw [hx, hnone]
  · obtain ⟨x, hx, -, hvisited⟩ := hread e he
    rwa [hx]
  · rw [ht.journal] at henter
    obtain ⟨p, hp, rfl⟩ := List.mem_map.mp (hj.entered e henter).1
    exact habsent _ he p hp List.mem_cons_self
  · rw [ht.decls] at hp
    exact absurd hmem (habsent e he p hp)

end Pass.Unmet

/-- A declaration may be entered for a new entity, together with others or alone. -/
theorem Pass.Journaled.await {group : List EntityId} {e : EntityId} {d : Declaration} (h : s.Journaled [])
    (hnew : s.Unmet group d) (he : e ∈ group) (hd : d.variables ⊆ group) :
    Journaled [] { s with decls := (e, d) :: s.decls } ∧ Unmet { s with decls := (e, d) :: s.decls } group d := by
  have hmem {v : EntityId} (hv : v ∈ e :: d.variables) : v ∈ group := (List.mem_cons.mp hv).elim (· ▸ he) (hd ·)
  refine ⟨⟨h.once, h.nested, fun e' he' => ?_, h.readOnce, h.visited, h.slab, fun p hp e' he' => ?_,
    fun p hp q hq v hpv hqv => ?_, fun p hp hlate hsome => ?_, fun p hp v hv hvisited => ?_⟩,
    ⟨hnew.present, hnew.untyped, hnew.unvisited, hnew.unentered, fun e' he' p hp hv => ?_⟩⟩
  · exact (h.entered e' he').imp_left (List.mem_cons_of_mem e)
  · rcases List.mem_cons.mp hp with rfl | hp
    · exact hnew.present e' (hmem he')
    · exact h.present p hp e' he'
  · rcases List.mem_cons.mp hp with rfl | hp <;> rcases List.mem_cons.mp hq with rfl | hq
    · rfl
    · exact (hnew.alone v (hmem hpv) q hq hqv).symm
    · exact hnew.alone v (hmem hqv) p hp hpv
    · exact h.groups p hp q hq v hpv hqv
  · rcases List.mem_cons.mp hp with rfl | hp
    · rcases hsome with hsome | henter
      · simp [hnew.untyped e he] at hsome
      · exact absurd henter (hnew.unentered e he)
    · exact h.told p hp hlate hsome
  · rcases List.mem_cons.mp hp with rfl | hp
    · exact absurd hvisited (hnew.unvisited v (hd hv))
    · exact h.toldVisited p hp v hv hvisited
  · rcases List.mem_cons.mp hp with rfl | hp
    · rfl
    · exact hnew.alone e' he' p hp hv

namespace Check

theorem fresh_newEntity {x : Entity} (hx : x.type = none) (hvisited : x.isVisited = false) {e : EntityId} {t : Pass}
    (h : newEntity x s = .ok e t) : Rests s t ∧ s.Fresh t [e] := by
  obtain ⟨rfl, rfl⟩ := newEntity_ok h
  refine ⟨.newEntity s x, fun e he => ?_⟩
  obtain rfl := List.mem_singleton.mp he
  refine ⟨s.store.entity?_fresh x, x, ?_, hx, by simp [hvisited]⟩
  rw [Store.entity?_newEntity, if_pos rfl]

theorem fresh_newVariables {names : List Ident} {es : List EntityId} {t : Pass} (h : newVariables names s = .ok es t) :
    Rests s t ∧ s.Fresh t es := by
  induction names generalizing s es with
  | nil =>
    cases h
    exact ⟨Reports.refl _, by simp [Pass.Fresh]⟩
  | cons name rest ih =>
    obtain ⟨e, s₁, hnew, h⟩ := bind_eq_ok.mp h
    obtain ⟨es', s₂, hrun, h⟩ := bind_eq_ok.mp h
    cases h
    obtain ⟨hfirst, hfresh⟩ := fresh_newEntity (x := Entity.fresh (.var .plain) name.token (some name.id)) rfl rfl hnew
    obtain ⟨hrests, hfresh'⟩ := ih hrun
    refine ⟨hfirst.trans hrests, List.forall_mem_cons.mpr ⟨?_, fun e' he' => ?_⟩⟩
    · obtain ⟨hnone, x, hx, htype, hvisited⟩ := hfresh e (by simp)
      obtain ⟨y, hy, htype', hkind⟩ := hrests.entity e x hx
      exact ⟨hnone, y, hy, htype'.trans htype, by rwa [Entity.isVisited, hkind (by simp)]⟩
    · obtain ⟨hnone, hwaits⟩ := hfresh' e' he'
      exact ⟨hfirst.grows.entity_eq_none hnone, hwaits⟩

/-- Declarations are kept for entities that the journal does not know. -/
theorem journals_step {scope : ScopeId} {K : Ident → Declaration → Prop} {r r' : Roll} {t : Pass}
    (h : Roll.Step scope K r s r' t) (hs : s.Journaled [] ∧ s.Unmet (r.entries.map Prod.snd) r.decl) :
    t.Journaled [] ∧ t.Unmet (r'.entries.map Prod.snd) r'.decl := by
  obtain ⟨hj, hnew⟩ := hs
  have hquiet {t : Pass} (ht : Rests s t) : t.Journaled [] ∧ t.Unmet (r.entries.map Prod.snd) r.decl :=
    ⟨hj.still ht.toVisits, hnew.still ht⟩
  cases h with
  | report token hp => exact hquiet ((moves_report hp).along s)
  | hoist id => exact hquiet (.of_store_eq (Prepares.hoist s id) rfl rfl rfl)
  | make name d hmade =>
    obtain ⟨hrests, hfresh⟩ := fresh_newEntity (x := d.entity name) rfl (by cases d <;> rfl) hmade
    exact ⟨hj.still hrests.toVisits, .of_fresh hj hrests hfresh⟩
  | makeAll type values hmade =>
    obtain ⟨hrests, hfresh⟩ := fresh_newVariables hmade
    refine ⟨hj.still hrests.toVisits, .of_fresh hj hrests fun e he => hfresh e ?_⟩
    obtain ⟨p, hp, rfl⟩ := List.mem_map.mp he
    exact (List.of_mem_zip hp).2
  | await h =>
    obtain ⟨name, he, -⟩ := h.name
    exact hj.await hnew (List.mem_map_of_mem he) h.vars
  | bind => exact hquiet (moves_bindIdent.along s)

end Check

/-! ## Passes -/

/-- The journal keeps to the state, and declarations to their entities. -/
structure Accounts (s t : Pass) : Prop where
  grows : s.Grows t
  keeps : s.Declared → s.Journaled [] → t.Declared ∧ t.Journaled []

namespace Accounts

variable {s t u : Pass}

theorem trans (h : Accounts s t) (h' : Accounts t u) : Accounts s u where
  grows := h.grows.trans h'.grows
  keeps hs hj := by
    obtain ⟨ht, hj'⟩ := h.keeps hs hj
    exact h'.keeps ht hj'

theorem of_recounts (h : Recounts [] [] s t) : Accounts s t :=
  ⟨h.grows, fun hs hj => ⟨h.declared hs, h.keeps hs (by simp) (by simp) hj⟩⟩

theorem of_rests (h : Rests s t) : Accounts s t := of_recounts (.of_rests h)

instance : Observes Accounts := .of_idle (fun h _ _ => of_rests h) trans

instance : ReadsFiles Accounts := .of_idle (fun h _ _ => of_rests h) trans

instance : Frames Accounts where
  expr ctx reading e _ := (Check.moves_expr (Check.recounts_demand []) ctx reading e).mono fun _ _ => of_recounts
  demand ctx e _ := (Check.recounts_demand [] ctx e).mono fun _ _ => of_recounts
  dequeue s := of_rests (.of_store_eq (Frames.dequeue s) rfl rfl rfl)

end Accounts

namespace Check

instance : Registers Accounts where
  register h := by
    refine ((Registers.register (R := KeepsDeclared) h).and (h.moves (R := fun s t => s.Journaled [] → t.Journaled [])
      (I := fun s r t => s.Journaled [] → t.Journaled [] ∧ t.Unmet (r.entries.map Prod.snd) r.decl) ?_ ?_ ?_)).mono
      fun _ _ h => ⟨h.1.grows, fun hs hj => ⟨h.1.declared hs, h.2 hj⟩⟩
    · exact fun hstep h hs => journals_step hstep (h hs)
    · exact fun s hs => ⟨hs, by constructor <;> simp [Roll.blank]⟩
    · exact fun h hs => (h hs).1

/-- No declaration is kept for local variables, so nothing but the journal tells of them. -/
theorem accounts_varDecl (ctx : Context) {es : List EntityId} {t : Pass} (type : Option Expr) (values : List Expr)
    (hs : s.Declared) (hj : s.Journaled []) (hrests : Rests s t) (hfresh : s.Fresh t es)
    (hown : ∀ v ∈ es, t.store.Owns v "variable") :
    ((varDecl demand ctx es type values).after t).Declared ∧
      ((varDecl demand ctx es type values).after t).Journaled [] := by
  have ht : t.Declared := hs.grows hrests.grows hrests.decls
  have hmoves : Moves Advances (varDecl demand ctx es type values) :=
    moves_varDecl (fun reading e => moves_expr moves_demand ctx reading e) (fun _ _ => trivial) type values
  refine ⟨(hmoves.along t).declared ht, ?_⟩
  refine journaled_varDecl (recounts_demand []) ctx type values ht (by simp) (hj.still hrests.toVisits) (by simp) hown
    (fun p hp v hv hmem => ?_) fun v hv hvisited => ?_
  · have hsome := hj.present p (hrests.decls ▸ hp) v hmem
    rw [(hfresh v hv).1] at hsome
    cases hsome
  · obtain ⟨-, x, hx, -, hnot⟩ := hfresh v hv
    rw [Arena.entity_eq hx] at hvisited
    exact absurd hvisited hnot

theorem accounts_localVariables {ctx : Context} (hc : ctx.AtTop) (d : VarDecl) :
    Moves Accounts (localVariables ctx d) where
  along s := by
    refine ⟨(DeclaresLocals.locals ctx d hc).along s, fun hs hj => ?_⟩
    obtain ⟨es, t, hnew, -⟩ := newVariables_ok d.names s
    obtain ⟨hrests, hfresh⟩ := fresh_newVariables hnew
    obtain ⟨ht, hj'⟩ := accounts_varDecl ctx d.type d.values hs hj hrests hfresh (owns_newVariables hnew)
    have hbind : Moves Accounts (do
        bindVariables ctx.scope (d.names.zip es)
        if d.exposes then exposeVariables ctx.scope es) := by grind
    rw [localVariables, after_bind hnew]
    cases hrun : varDecl demand ctx es d.type d.values t with
    | ok a u =>
      rw [after_of_ok hrun] at ht hj'
      rw [after_bind hrun]
      exact (hbind.along u).keeps ht hj'
    | error stop u =>
      rw [after_of_error hrun] at ht hj'
      rw [after_bind_of_error hrun]
      exact ⟨ht, hj'⟩
  traced := (DeclaresLocals.locals (R := Pass.Grows) ctx d hc).traced

instance : Declares Accounts where
  complain s d hd := .of_rests (.of_store_eq (AllowsAll.complain s d hd) rfl rfl rfl)
  locals _ d hc := accounts_localVariables hc d

end Check

/-- A pass that did nothing yet has nothing to tell. -/
theorem Pass.journaled_start (store : Store) (links : List (String × Pos)) (collector : Collector) :
    Declared (.start store links collector) ∧ Journaled [] (.start store links collector) := by
  refine ⟨by simp [Declared, start], ?_, fun j hj => ?_, ?_, ?_, ?_, ?_, ?_, ?_, ?_, ?_⟩
  · simp [start]
  · rw [List.suffix_nil.mp hj]
    exact List.nodup_nil
  all_goals simp [start]

/-- Every pass of a program keeps its journal to its state, also one that stops. -/
theorem Program.journaled_end {config : Config} {files : List File}
    (hs : s = fileEnd config files ∨ IsJobEnd config files s) : s.Declared ∧ s.Journaled [] := by
  rcases hs with rfl | ⟨id, shared, -, b, -, rfl⟩
  · have haccounts : Accounts (opening config) (fileEnd config files) := (Check.moves_fileLevel config files).along _
    obtain ⟨hdeclared, hj⟩ := Pass.journaled_start Universe.store [] (.empty config.errorCap)
    exact haccounts.keeps hdeclared hj
  · have haccounts : Accounts (jobOpening config files id shared) (jobEnd config files id shared b) :=
      (Check.moves_bodyAndNested config b).along _
    obtain ⟨hdeclared, hj⟩ :=
      Pass.journaled_start ⟨.empty id, [(fileEnd config files).store.current]⟩ shared.links shared.collector
    exact haccounts.keeps hdeclared hj

/-! ## The journals of all passes -/

/-- The milestones of some passes. -/
def Pass.journals (passes : List Pass) : List Milestone := passes.flatMap Pass.journal

/-- What no pass has twice no two passes have either, if it is about a slab and every pass has its own. -/
theorem Pass.countP_journals {P : Milestone → Bool} {slab : Nat}
    (hids : (passes.map fun s => s.store.current.id).Nodup)
    (hslab : ∀ s ∈ passes, ∀ m ∈ s.journal, P m → slab = s.store.current.id)
    (honce : ∀ s ∈ passes, s.journal.countP P ≤ 1) : (journals passes).countP P ≤ 1 := by
  induction passes with
  | nil => simp [journals]
  | cons s rest ih =>
    rw [List.map_cons, List.nodup_cons] at hids
    rw [List.forall_mem_cons] at hslab honce
    have hrest := ih hids.2 hslab.2 honce.2
    have hsum : (journals (s :: rest)).countP P = s.journal.countP P + (journals rest).countP P := by
      rw [journals, List.flatMap_cons, List.countP_append, journals]
    by_cases hnone : s.journal.countP P = 0
    · omega
    · obtain ⟨m, hm, hP⟩ := List.countP_pos_iff.mp (Nat.pos_of_ne_zero hnone)
      have hzero : (journals rest).countP P = 0 := by
        refine List.countP_eq_zero.mpr fun m' hm' hP' => hids.1 ?_
        obtain ⟨t, ht, hmt⟩ := List.mem_flatMap.mp hm'
        rw [← hslab.1 m hm hP, hslab.2 t ht m' hmt hP']
        exact List.mem_map_of_mem ht
      omega

theorem Pass.Numbered.map_id {frozen : List Slab} {id : Nat} (h : Numbered frozen id passes) :
    passes.map (fun s => s.store.current.id) = List.range' id passes.length := by
  induction h with
  | nil => rfl
  | cons own _ ih => rw [List.map_cons, own.1, ih, List.length_cons, List.range'_succ]

namespace Program

variable {config : Config} {files : List File} {passes : List Pass} {p : Program}

section

variable (h : Merges config files passes p)

include h

theorem Merges.nodup_ids : ((fileEnd config files :: passes).map fun s => s.store.current.id).Nodup := by
  rw [List.map_cons, h.numbered.map_id, (slabs_fileEnd config files).1]
  refine List.nodup_cons.mpr ⟨fun hmem => ?_, List.nodup_range'⟩
  have hle := (List.mem_range'_1.mp hmem).1
  omega

theorem Merges.journaled : ∀ s ∈ fileEnd config files :: passes, s.Declared ∧ s.Journaled [] :=
  List.forall_mem_cons.mpr ⟨journaled_end (.inl rfl), fun s hs => journaled_end (.inr (h.ends s hs))⟩

/-- The check of a declaration begins once at most. -/
theorem Merges.count_enter (e : EntityId) : (Pass.journals (fileEnd config files :: passes)).count (.enter e) ≤ 1 := by
  have hslab : ∀ s ∈ fileEnd config files :: passes, ∀ m ∈ s.journal, m == .enter e → e.slab = s.store.current.id := by
    intro s hs m hm hP
    obtain ⟨hdeclared, hj⟩ := h.journaled s hs
    obtain ⟨q, hq, rfl⟩ := List.mem_map.mp (hj.entered e (beq_iff_eq.mp hP ▸ hm)).1
    exact (hdeclared q hq).own.slab
  exact Pass.countP_journals h.nodup_ids hslab fun s hs => (h.journaled s hs).2.once e

/-- A variable is read once at most. -/
theorem Merges.countP_reads (v : EntityId) :
    (Pass.journals (fileEnd config files :: passes)).countP (Milestone.reads v) ≤ 1 :=
  Pass.countP_journals h.nodup_ids (fun s hs m hm hP => (h.journaled s hs).2.slab m hm v hP)
    fun s hs => (h.journaled s hs).2.readOnce v

end

end Program

/-- Checks that go on are checks of different declarations that are kept. -/
theorem Pass.Journaled.active_le (h : s.Journaled []) {j : List Milestone} (hj : j <:+ s.journal) :
    (Milestone.active j).Nodup ∧ (Milestone.active j).length ≤ s.decls.length := by
  have hnodup := h.nested j hj
  refine ⟨hnodup, ?_⟩
  rw [← List.length_map Prod.fst]
  refine (hnodup.subperm fun e he => ?_).length_le
  exact (h.entered e (hj.subset (Milestone.mem_of_mem_active he))).1

/-- A declaration whose entity has a type is told of, and told of once. -/
theorem Program.Merges.count_mark {config : Config} {files : List File} {p : Program}
    (h : Merges config files passes p) (hs : s ∈ fileEnd config files :: passes) (hcomplete : s.store.arena.Complete)
    {q : EntityId × Declaration} (hq : q ∈ s.decls) :
    (Pass.journals (fileEnd config files :: passes)).count (q.2.mark q.1) = 1 := by
  obtain ⟨hdeclared, hj⟩ := h.journaled s hs
  have htyped : (s.store.arena.entity q.1).type.isSome := by
    obtain ⟨x, hx, -⟩ := (hdeclared q hq).own.entity
    rw [Arena.entity_eq hx, Option.isSome_iff_ne_none]
    exact fun hnone => hcomplete.typed q.1 ⟨x, hx, hnone⟩
  have hmem : q.2.mark q.1 ∈ Pass.journals (fileEnd config files :: passes) :=
    List.mem_flatMap.mpr ⟨s, hs, hj.told q hq (by simp) (.inl htyped)⟩
  have hpos := List.count_pos_iff.mpr hmem
  have hle : (Pass.journals (fileEnd config files :: passes)).count (q.2.mark q.1) ≤ 1 := by
    by_cases hsort : q.2.sort = "variable"
    · have hvar := (hdeclared q hq).among hsort
      rw [Declaration.mark_of_mem hvar]
      refine Nat.le_trans (List.countP_mono_left fun m _ hm => ?_) (h.countP_reads q.1)
      rw [beq_iff_eq.mp hm]
      simpa [Milestone.reads] using hvar
    · rw [Declaration.mark_of_sort hsort]
      exact h.count_enter q.1
  omega

/-- Checking a declaration on demand runs it once. However a program ends, with errors or cut short, in the journals
of all its passes the check of an entity's declaration begins once at most, and the values of a variable are read once
at most. At every point of a pass the checks that are going on are of different declarations that are kept, so they
are nested no deeper than there are declarations. If the check was not cut short, every declaration that was entered
is checked exactly once. -/
theorem declarations_checked_once (config : Config) (files : List File) :
    (∀ passes, Program.Merges config files passes (checkFiles config files) →
      (∀ e, (Pass.journals (Program.fileEnd config files :: passes)).count (.enter e) ≤ 1) ∧
      (∀ v, (Pass.journals (Program.fileEnd config files :: passes)).countP (Milestone.reads v) ≤ 1) ∧
      ∀ s ∈ Program.fileEnd config files :: passes, ∀ j, j <:+ s.journal →
        (Milestone.active j).Nodup ∧ (Milestone.active j).length ≤ s.decls.length) ∧
    ((checkFiles config files).stop = none →
      ∃ passes, Program.Completes config files (Program.fileEnd config files) passes ∧
        ∀ s ∈ Program.fileEnd config files :: passes, ∀ q ∈ s.decls,
          (Pass.journals (Program.fileEnd config files :: passes)).count (q.2.mark q.1) = 1) := by
  refine ⟨fun passes h => ⟨h.count_enter, h.countP_reads, fun s hs j hj => (h.journaled s hs).2.active_le hj⟩,
    fun h => ?_⟩
  obtain ⟨s, passes, hcompletes⟩ := Program.completes_of_stop h
  obtain ⟨rfl, hmerges⟩ := hcompletes.merges
  exact ⟨passes, hcompletes, fun s hs q hq => hmerges.count_mark hs (hcompletes.complete s hs).2 hq⟩

/-- Two records and two variables that depend on each other are entered, and each is checked once in spite of it. -/
theorem declarations_checked_once_tangled :
    (Program.fileEnd .standard Tangled.files).decls.length = 5 ∧
      ∃ passes, Program.Completes .standard Tangled.files (Program.fileEnd .standard Tangled.files) passes ∧
        (∀ e, (Pass.journals (Program.fileEnd .standard Tangled.files :: passes)).count (.enter e) ≤ 1) ∧
        ∀ s ∈ Program.fileEnd .standard Tangled.files :: passes, ∀ q ∈ s.decls,
          (Pass.journals (Program.fileEnd .standard Tangled.files :: passes)).count (q.2.mark q.1) = 1 := by
  refine ⟨by decide +kernel, ?_⟩
  obtain ⟨hmost, hexact⟩ := declarations_checked_once .standard Tangled.files
  obtain ⟨passes, hcompletes, hmarks⟩ := hexact Tangled.spec.1
  exact ⟨passes, hcompletes, (hmost passes hcompletes.merges.2).1, hmarks⟩

end Statics
