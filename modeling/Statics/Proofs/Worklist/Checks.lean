import Mathlib.Data.List.Basic
import Statics.Proofs.Worklist.Files

/-!
# What checks of declarations leave behind

When the check of a procedure ends, its body is in the queue and its link name is claimed, unless it is foreign. Other
declarations queue nothing and claim nothing. So the declarations whose check begins and ends in a run tell what the run
adds. `Performs done s t` says this of a run where these are `done`, in the order in which their checks ended.

Together with the journal, which has every procedure entered once, it tells which bodies are queued and which names are
claimed, and not only which may be.
-/

namespace Statics

variable {d : ProcDecl} {e : EntityId}

/-- The link name of a procedure, if it has one. -/
def ProcDecl.ownLinks (d : ProcDecl) : List String := d.linkName.toList.map Token.text

/-- The body that is to be checked for a procedure, if there is one. A foreign procedure has none. -/
def ProcDecl.ownBody (d : ProcDecl) : Option Block := if d.tags.foreign then none else d.body

/-- The link name that a procedure claims, with the place of the procedure. A foreign procedure claims none. -/
def ProcDecl.claim? (d : ProcDecl) : Option (String × Pos) :=
  if d.tags.foreign then none else d.linkName.map fun link => (link.text, d.name.token.pos)

theorem body_of_ownBody {b : Block} (h : d.ownBody = some b) : d.body = some b := by
  unfold ProcDecl.ownBody at h
  split at h
  · cases h
  · exact h

theorem mem_ownLinks_of_claim {p : String × Pos} (h : d.claim? = some p) : p.1 ∈ d.ownLinks := by
  unfold ProcDecl.claim? at h
  split at h
  · cases h
  · obtain ⟨link, hlink, rfl⟩ := Option.map_eq_some_iff.mp h
    simp [ProcDecl.ownLinks, hlink]

/-- The procedures among some declarations, with their entities. -/
def procEntries (decls : List (EntityId × Declaration)) : List (EntityId × ProcDecl) :=
  decls.filterMap fun
    | (e, .proc _ d) => some (e, d)
    | _ => none

/-- The bodies of procedures, with their entities. -/
def tasksOf (procs : List (EntityId × ProcDecl)) : List (EntityId × Block) :=
  procs.filterMap fun p => p.2.ownBody.map (p.1, ·)

/-- The link names that procedures claim. -/
def claimsOf (procs : List ProcDecl) : List (String × Pos) := procs.filterMap ProcDecl.claim?

/-- The entity and the block of a body. -/
def Body.task (b : Body) : EntityId × Block := (b.entity, b.block)

theorem procEntries_append (decls decls' : Pending) :
    procEntries (decls ++ decls') = procEntries decls ++ procEntries decls' := List.filterMap_append

theorem tasksOf_append (procs procs' : List (EntityId × ProcDecl)) :
    tasksOf (procs ++ procs') = tasksOf procs ++ tasksOf procs' := List.filterMap_append

theorem claimsOf_append (procs procs' : List ProcDecl) :
    claimsOf (procs ++ procs') = claimsOf procs ++ claimsOf procs' :=
  List.filterMap_append

theorem mem_procEntries {decls : Pending} {p : EntityId × ProcDecl} :
    p ∈ procEntries decls ↔ ∃ scope, (p.1, .proc scope p.2) ∈ decls := by
  constructor
  · intro hp
    obtain ⟨⟨e, d⟩, hmem, heq⟩ := List.mem_filterMap.mp hp
    cases d with
    | proc scope d =>
      cases heq
      exact ⟨scope, hmem⟩
    | _ => cases heq
  · rintro ⟨scope, hmem⟩
    exact List.mem_filterMap.mpr ⟨_, hmem, rfl⟩

theorem map_snd_procEntries (decls : Pending) :
    (procEntries decls).map Prod.snd = procsOf decls := by
  rw [procEntries, procsOf, List.map_filterMap]
  refine List.filterMap_congr fun p _ => ?_
  rcases p with ⟨e, _ | _ | _ | ⟨scope, d⟩⟩ <;> rfl

theorem map_snd_tasksOf (procs : List (EntityId × ProcDecl)) :
    (tasksOf procs).map Prod.snd = (procs.map Prod.snd).filterMap ProcDecl.ownBody := by
  rw [tasksOf, List.map_filterMap, List.filterMap_map]
  refine List.filterMap_congr fun p _ => ?_
  cases hbody : p.2.ownBody <;> simp [hbody]

/-! ## Runs and the checks in their course -/

/-- From one state to another by the checks of the declarations in `done`. A procedure among them had no type before. -/
structure Performs (done : List (EntityId × Declaration)) (s t : Pass) : Prop where
  queue : ∃ new, t.queue = s.queue ++ new ∧ new.map Body.task = tasksOf (procEntries done)
  links : t.links = s.links ++ claimsOf (procsOf done)
  entered : ∀ e, t.journal.count (.enter e) = s.journal.count (.enter e) + (done.map Prod.fst).count e
  untyped : ∀ p ∈ procEntries done, (s.store.arena.entity p.1).type = none

/-- From one state to another by queueing bodies and claiming link names, without a check in between. -/
structure Adds (tasks : List (EntityId × Block)) (claims : List (String × Pos)) (s t : Pass) : Prop where
  queue : ∃ new, t.queue = s.queue ++ new ∧ new.map Body.task = tasks
  links : t.links = s.links ++ claims
  entered : ∀ e, t.journal.count (.enter e) = s.journal.count (.enter e)

/-- A run checks declarations in `pending`, each of them completely, unless too many errors stop it. -/
structure Executes (pending : List (EntityId × Declaration)) (s t : Pass) : Prop where
  grows : s.Grows t
  log : LogGrows s t
  done : ¬ t.collector.isFatal → ∃ done, done ⊆ pending ∧ Performs done s t

section

variable {pending rest done done' : Pending} {s t u : Pass}

theorem queue_trans {tasks tasks' : List (EntityId × Block)}
    (h : ∃ new, t.queue = s.queue ++ new ∧ new.map Body.task = tasks) (h' : ∃ new, u.queue = t.queue ++ new ∧
    new.map Body.task = tasks') : ∃ new, u.queue = s.queue ++ new ∧ new.map Body.task = tasks ++ tasks' := by
  obtain ⟨new, hqueue, hnew⟩ := h
  obtain ⟨new', hqueue', hnew'⟩ := h'
  exact ⟨new ++ new', by rw [hqueue', hqueue, List.append_assoc], by rw [List.map_append, hnew, hnew']⟩

theorem Performs.trans (h : Performs done s t) (h' : Performs done' t u) (hst : s.Grows t) :
    Performs (done ++ done') s u where
  queue := by
    rw [procEntries_append, tasksOf_append]
    exact queue_trans h.queue h'.queue
  links := by rw [h'.links, h.links, procsOf_append, claimsOf_append, List.append_assoc]
  entered e := by
    rw [h'.entered, h.entered, List.map_append, List.count_append]
    omega
  untyped := by
    rw [procEntries_append]
    exact List.forall_mem_append.mpr ⟨h.untyped, fun p hp => hst.type_eq_none (h'.untyped p hp)⟩

theorem Performs.tasks (h : Performs done s t) :
    t.queue.map Body.task = s.queue.map Body.task ++ tasksOf (procEntries done) := by
  obtain ⟨new, hqueue, hnew⟩ := h.queue
  rw [hqueue, List.map_append, hnew]

/-- A run in whose course no check begins. -/
theorem Performs.nothing (hq : t.queue = s.queue) (hl : t.links = s.links)
    (hj : ∀ e, t.journal.count (.enter e) = s.journal.count (.enter e)) : Performs [] s t where
  queue := ⟨[], by simp [hq], rfl⟩
  links := by simp [hl, claimsOf, procsOf]
  entered e := by simp [hj]
  untyped := by simp [procEntries]

/-- The check of a declaration, with the checks in its course and what it adds itself. -/
theorem Performs.check {d : Declaration} (h : Performs done { s with journal := .enter e :: s.journal } t)
    (h' : Adds (tasksOf (procEntries [(e, d)])) (claimsOf (procsOf [(e, d)])) t u)
    (hnone : (s.store.arena.entity e).type = none) :
    Performs (done ++ [(e, d)]) s { u with journal := .leave e :: u.journal } where
  queue := by
    rw [procEntries_append, tasksOf_append]
    exact queue_trans h.queue h'.queue
  links := by
    show u.links = _
    rw [h'.links, h.links, procsOf_append, claimsOf_append, List.append_assoc]
  entered e' := by
    have hbegun := h.entered e'
    rw [List.count_cons] at hbegun
    rw [List.count_cons_of_ne (by simp), h'.entered, hbegun, List.map_append, List.count_append]
    by_cases he : e = e'
    · simp [he]
      omega
    · simp [he]
  untyped := by
    rw [procEntries_append]
    refine List.forall_mem_append.mpr ⟨h.untyped, fun p hp => ?_⟩
    obtain ⟨scope, hmem⟩ := mem_procEntries.mp hp
    cases List.mem_singleton.mp hmem
    exact hnone

namespace Executes

theorem nothing (hg : s.Grows t) (hlog : LogGrows s t) (hq : t.queue = s.queue) (hl : t.links = s.links)
    (hj : ∀ e, t.journal.count (.enter e) = s.journal.count (.enter e)) : Executes pending s t :=
  ⟨hg, hlog, fun _ => ⟨[], by simp, .nothing hq hl hj⟩⟩

theorem of_eq (hg : s.Grows t) (hlog : LogGrows s t) (hq : t.queue = s.queue) (hl : t.links = s.links)
    (hj : t.journal = s.journal) : Executes pending s t := nothing hg hlog hq hl fun _ => by rw [hj]

theorem mono (h : Executes rest s t) (hsub : rest ⊆ pending) : Executes pending s t where
  grows := h.grows
  log := h.log
  done hroom := by
    obtain ⟨done, hdone, hperforms⟩ := h.done hroom
    exact ⟨done, List.Subset.trans hdone hsub, hperforms⟩

theorem trans (h : Executes pending s t) (h' : Executes pending t u) : Executes pending s u where
  grows := h.grows.trans h'.grows
  log := h.log.trans h'.log
  done hroom := by
    obtain ⟨done, hdone, hperforms⟩ := h.done fun hfatal => hroom (h'.log.isFatal hfatal)
    obtain ⟨done', hdone', hperforms'⟩ := h'.done hroom
    exact ⟨done ++ done', List.append_subset.mpr ⟨hdone, hdone'⟩, hperforms.trans hperforms' h.grows⟩

/-- A type that was allocated before a run is filled in after it. -/
theorem fill {τ : Ty} {f : Ty → Ty} (h : Executes pending { s with store := (s.store.newType τ).2 } u) :
    Executes pending s { u with store := u.store.modifyType (s.store.newType τ).1 f } where
  grows := ⟨h.grows.store.fill _, h.grows.decls, h.grows.notes⟩
  log := h.log
  done hroom := by
    obtain ⟨done, hdone, hperforms⟩ := h.done hroom
    have hold : s.Grows { s with store := (s.store.newType τ).2 } := .of_store (.newType s.store τ)
    exact ⟨done, hdone, hperforms.queue, hperforms.links, hperforms.entered, fun p hp =>
      hold.type_eq_none (hperforms.untyped p hp)⟩

instance : ReadsFiles (Executes pending) :=
  .of_idle (fun h hlog hst => of_eq h hlog hst.queue hst.links hst.journal) trans

instance : Observes (Executes pending) :=
  .of_idle (fun h hlog hst => of_eq h hlog hst.queue hst.links hst.journal) trans

instance : Prepares (Executes pending) where
  newWaiting s e he := of_eq (Prepares.newWaiting s e he) (Prepares.newWaiting s e he) rfl rfl rfl
  hoist s id := of_eq (Prepares.hoist s id) (Prepares.hoist s id) rfl rfl rfl

instance : ReadsVariables (Executes pending) where
  read s group := nothing (ReadsVariables.read s group) (ReadsVariables.read s group) rfl rfl fun _ => by simp

instance : NamesTypes (Executes pending) (fun _ => True) where
  newType s τ hτ hopen := of_eq (BuildsTypes.newType s τ hτ hopen) (BuildsTypes.newType s τ hτ hopen) rfl rfl rfl
  fillEnum _ _ _ _ _ h := h.fill
  settle s e f he hf := of_eq (Settles.settle s e f he hf) (Settles.settle s e f he hf) rfl rfl rfl
  claimSymbol s p := of_eq (Settles.claimSymbol s p) (Settles.claimSymbol s p) rfl rfl rfl
  fillNamed _ _ _ _ _ h := h.fill
  stopNamed _ _ _ _ _ h := trans (of_eq (.of_store (.newType ..)) (.of_collector_eq rfl) rfl rfl rfl) h

/-- Nothing is checked where nothing is pending. -/
theorem performs_nil (h : Executes [] s t) (hroom : ¬ t.collector.isFatal) : Performs [] s t := by
  obtain ⟨done, hdone, hperforms⟩ := h.done hroom
  rwa [List.subset_nil.mp hdone] at hperforms

end Executes

end

theorem Adds.trans {tasks tasks' : List (EntityId × Block)} {claims claims' : List (String × Pos)} {s t u : Pass}
    (h : Adds tasks claims s t) (h' : Adds tasks' claims' t u) : Adds (tasks ++ tasks') (claims ++ claims') s u where
  queue := queue_trans h.queue h'.queue
  links := by rw [h'.links, h.links, List.append_assoc]
  entered e := (h'.entered e).trans (h.entered e)

namespace Check

variable {α : Type} {pending rest : Pending} {s t : Pass}

/-! ## The end of a procedure -/

/-- A run adds nothing where nothing is pending. -/
theorem adds_nothing {x : Check α} (hx : Moves (Executes []) x) {a : α} (h : x s = .ok a t)
    (hroom : ¬ s.collector.isFatal) : Adds [] [] s t ∧ ¬ t.collector.isFatal := by
  have hroom' := hx.traced.room h hroom
  have hnothing := (hx.ok h).performs_nil hroom'
  exact ⟨⟨hnothing.queue, hnothing.links, by simpa using hnothing.entered⟩, hroom'⟩

theorem emit_ok {d : Diagnostic} (h : emit d s = .ok () t) : ∃ collector, t = { s with collector := collector } := by
  unfold emit at h
  split at h
  · cases h
    exact ⟨_, rfl⟩
  · cases h

theorem adds_reserveLink {link : Token} {pos : Pos} (h : reserveLink link pos s = .ok () t) :
    Adds [] [(link.text, pos)] s t := by
  replace h := rest_of_ok rfl h
  replace h := rest_of_ok rfl h
  have hclaimed : ∃ collector, t = { s with links := s.links ++ [(link.text, pos)], collector := collector } := by
    dsimp only at h
    cases hholder : s.links.lookup link.text with
    | some first =>
      rw [hholder] at h
      exact emit_ok h
    | none =>
      rw [hholder] at h
      cases h
      exact ⟨_, rfl⟩
  obtain ⟨_, rfl⟩ := hclaimed
  exact ⟨⟨[], by simp, rfl⟩, rfl, fun _ => rfl⟩

theorem adds_conclude {fileLevel : Bool} {scope : ScopeId} {τ : TypeId}
    (h : conclude d fileLevel e scope τ s = .ok () t) (hroom : ¬ s.collector.isFatal) :
    Adds (tasksOf [(e, d)]) (claimsOf [d]) s t := by
  unfold conclude at h
  split at h
  case isTrue hforeign =>
    have hnone : tasksOf [(e, d)] = [] ∧ claimsOf [d] = [] := by
      simp [tasksOf, claimsOf, ProcDecl.ownBody, ProcDecl.claim?, hforeign]
    rw [hnone.1, hnone.2]
    exact (adds_nothing moves_foreignProc h hroom).1
  case isFalse hforeign =>
    have hbody {u : Pass} (hroom : ¬ u.collector.isFatal) (h : enqueueBody d e scope τ u = .ok () t) :
        Adds (tasksOf [(e, d)]) [] u t := by
      unfold enqueueBody at h
      cases hblock : d.body with
      | some block =>
        rw [hblock] at h
        cases h
        exact ⟨⟨_, rfl, by simp [tasksOf, ProcDecl.ownBody, hforeign, hblock, Body.task]⟩, by simp, fun _ => rfl⟩
      | none =>
        rw [hblock] at h
        have hnone : tasksOf [(e, d)] = [] := by simp [tasksOf, ProcDecl.ownBody, hforeign, hblock]
        rw [hnone]
        exact (adds_nothing (moves_report rfl) h hroom).1
    cases hlink : d.linkName with
    | none =>
      rw [hlink] at h
      have hnone : claimsOf [d] = [] := by simp [claimsOf, ProcDecl.claim?, hlink]
      rw [hnone]
      exact hbody hroom h
    | some link =>
      rw [hlink] at h
      obtain ⟨_, u, hreserve, h⟩ := bind_eq_ok.mp h
      have hroom' := (reserveLink_eq_tell link d.name.token.pos ▸ traced_tell _).room hreserve hroom
      have hclaim : claimsOf [d] = [(link.text, d.name.token.pos)] := by
        simp [claimsOf, ProcDecl.claim?, hforeign, hlink]
      rw [hclaim]
      exact (adds_reserveLink hreserve).trans (hbody hroom' h)

/-- Once its signature was read, a procedure claims its link name and queues its body, unless it is foreign. -/
theorem adds_procedure {resolve : Resolver} {ctx : Context} {p : ScopeId × TypeId} {u : Pass}
    (h : procedure resolve ctx e d s = .ok () t) (hsignature : procSignature resolve ctx e d s = .ok p u)
    (hroom : ¬ u.collector.isFatal) : Adds (tasksOf [(e, d)]) (claimsOf [d]) u t := by
  rw [procedure_eq] at h
  obtain ⟨⟨scope, τ⟩, s₁, hsignature', h⟩ := bind_eq_ok.mp h
  rw [hsignature] at hsignature'
  cases hsignature'
  replace h := rest_of_ok rfl h
  have hrest {v : Pass} (hroom : ¬ v.collector.isFatal) (h : (do
      procTags d
      conclude d ((u.store.arena.scope ctx.scope).kind.isFileLevel) e scope τ) v = .ok () t) :
      Adds (tasksOf [(e, d)]) (claimsOf [d]) v t := by
    obtain ⟨_, w, htags, h⟩ := bind_eq_ok.mp h
    obtain ⟨hadds, hroom⟩ := adds_nothing moves_procTags htags hroom
    exact hadds.trans (adds_conclude h hroom)
  dsimp only at h
  split at h
  case isTrue =>
    obtain ⟨_, v, hentry, h⟩ := bind_eq_ok.mp h
    obtain ⟨hadds, hroom⟩ := adds_nothing moves_entryPointSignature hentry hroom
    exact hadds.trans (hrest hroom h)
  case isFalse => exact hrest hroom h

/-! ## Demands -/

section

variable {resolve : Resolver} (hr : ∀ ctx e, Moves (Executes rest) (resolve ctx e)) {ctx : Context} {e : EntityId}

include hr

/-- The check of a declaration: the checks in its course come first, and then it adds what is its own. -/
theorem performs_declaration {d : Declaration} (h : declaration resolve ctx e d s = .ok () t)
    (hroom : ¬ t.collector.isFatal) (hs : ¬ s.collector.isFatal) :
    ∃ done u, done ⊆ rest ∧ Performs done s u ∧
      Adds (tasksOf (procEntries [(e, d)])) (claimsOf (procsOf [(e, d)])) u t := by
  have hplain {x : Check Unit} (hx : Moves (Executes rest) x) (h : x s = .ok () t)
      (hd : procEntries [(e, d)] = [] ∧ procsOf [(e, d)] = []) :
      ∃ done u, done ⊆ rest ∧ Performs done s u ∧
        Adds (tasksOf (procEntries [(e, d)])) (claimsOf (procsOf [(e, d)])) u t := by
    obtain ⟨done, hdone, hperforms⟩ := (hx.ok h).done hroom
    rw [hd.1, hd.2]
    exact ⟨done, t, hdone, hperforms, ⟨[], by simp, rfl⟩, by simp [claimsOf], fun _ => rfl⟩
  have hx := fun ctx reading x => moves_expr hr ctx reading x
  cases d with
  | constant scope type value => exact hplain (moves_constant (hx ctx) trivial) h ⟨rfl, rfl⟩
  | vars scope entities type values =>
    exact hplain (moves_varDecl (hx ctx) (fun _ _ => trivial) type values) h ⟨rfl, rfl⟩
  | type scope type => exact hplain (moves_namedType (fun reading => hx _ reading type) trivial) h ⟨rfl, rfl⟩
  | proc scope d =>
    have hsignature : Moves (Executes rest) (procSignature resolve ctx e d) :=
      moves_procSignature (fun scope => moves_anySignature hr) trivial
    obtain ⟨p, u, hrun, -⟩ := bind_eq_ok.mp h
    have hroom' := hsignature.traced.room hrun hs
    obtain ⟨done, hdone, hperforms⟩ := (hsignature.ok hrun).done hroom'
    exact ⟨done, u, hdone, hperforms, adds_procedure h hrun hroom'⟩

end

/-- Taking a declaration away leaves the others, in another order of the same. -/
theorem perm_of_take? {d : Declaration} (h : take? e pending = some (d, rest)) : pending.Perm ((e, d) :: rest) := by
  induction pending generalizing rest with
  | nil => cases h
  | cons p tail ih =>
    unfold take? at h
    split at h
    case isTrue he =>
      cases h
      rw [← he]
    case isFalse =>
      obtain ⟨⟨d', rest'⟩, hq, heq⟩ := Option.map_eq_some_iff.mp h
      cases heq
      exact ((ih hq).cons p).trans (.swap ..)

theorem executes_demandFrom (pending : Pending) (ctx : Context) (e : EntityId) :
    Moves (Executes pending) (demandFrom pending ctx e) := by
  have hlog := (moves_demandFrom (R := LogGrows) pending ctx e).along
  refine ⟨fun s => ⟨(moves_demandFrom pending ctx e).along s, hlog s, fun hroom => ?_⟩,
    (moves_demandFrom (R := Pass.Grows) pending ctx e).traced⟩
  have hs : ¬ s.collector.isFatal := fun hfatal => hroom ((hlog s).isFatal hfatal)
  have hentity : entity e s = .ok (s.store.arena.entity e) s := rfl
  have hget : (get : Check Pass) s = .ok s s := rfl
  have hnothing : ∃ done, done ⊆ pending ∧ Performs done s s := ⟨[], by simp, .nothing rfl rfl fun _ => rfl⟩
  revert hroom
  unfold demandFrom
  rw [after_bind hentity]
  split
  case isTrue => exact fun _ => hnothing
  case isFalse huntyped =>
    rw [after_bind hget]
    split
    case isTrue =>
      have hcycle : Moves (Executes pending) (do
          reportCycle e
          setType e .invalid) := by grind
      exact (hcycle.along s).done
    split
    case h_2 => exact fun _ => hnothing
    case h_1 d rest taken =>
      have hlt := length_lt_of_take? taken
      obtain ⟨hmem, hrest⟩ := subset_of_take? taken
      have henter : record (.enter e) s = .ok () { s with journal := .enter e :: s.journal } := rfl
      rw [after_bind henter]
      cases hrun : declaration (demandFrom rest)
        (ctx.within d.scope) e d { s with journal := .enter e :: s.journal } with
      | error stop t =>
        have hmoves := moves_declaration (R := LogGrows) (moves_demandFrom rest) (ctx.within d.scope) e d
        rw [after_bind_of_error hrun]
        exact fun hroom => absurd (hmoves.fatal hrun) hroom
      | ok a t =>
        rw [after_bind hrun]
        intro hroom
        obtain ⟨done, u, hdone, hperforms, hadds⟩ :=
          performs_declaration (fun ctx e => executes_demandFrom rest ctx e) hrun hroom hs
        refine ⟨done ++ [(e, d)], List.append_subset.mpr ⟨List.Subset.trans hdone hrest, ?_⟩,
          hperforms.check hadds (by simpa using huntyped)⟩
        simpa using hmem
termination_by pending.length

end Check

/-! ## Passes -/

/-- A pass checks declarations that it keeps, each of them completely, unless too many errors stop it. -/
def Works (s t : Pass) : Prop := ∃ pending, pending ⊆ t.decls ∧ Executes pending s t

namespace Works

variable {s t u : Pass}

theorem of_executes (h : Executes [] s t) : Works s t := ⟨[], by simp, h⟩

theorem trans (h : Works s t) (h' : Works t u) : Works s u := by
  obtain ⟨pending, hpending, h⟩ := h
  obtain ⟨pending', hpending', h'⟩ := h'
  have hlater : pending ⊆ u.decls := List.Subset.trans hpending h'.grows.decls.subset
  exact ⟨pending ++ pending', List.append_subset.mpr ⟨hlater, hpending'⟩, (h.mono (by simp)).trans (h'.mono (by simp))⟩

instance : Observes Works := .of_idle (fun h _ _ => of_executes h) trans

instance : ReadsFiles Works := .of_idle (fun h _ _ => of_executes h) trans

instance : Enters Works where
  newWaiting s e he := of_executes (Prepares.newWaiting s e he)
  hoist s id := of_executes (Prepares.hoist s id)
  await s p := of_executes (.of_eq (Enters.await s p) (Enters.await s p) rfl rfl rfl)

instance : ReadsVariables Works where
  read s group := of_executes (ReadsVariables.read s group)

instance : NamesTypes Works (fun _ => True) where
  newType s τ hτ hopen := of_executes (BuildsTypes.newType s τ hτ hopen)
  fillEnum _ _ _ _ _ h := h.imp fun _ h => ⟨h.1, h.2.fill⟩
  settle s e f he hf := of_executes (Settles.settle s e f he hf)
  claimSymbol s p := of_executes (Settles.claimSymbol s p)
  fillNamed _ _ _ _ _ h := h.imp fun _ h => ⟨h.1, h.2.fill⟩
  stopNamed s u name e hfatal h := h.imp fun _ h => ⟨h.1, NamesTypes.stopNamed s u name e hfatal h.2⟩

end Works

namespace Check

theorem works_demand (ctx : Context) (e : EntityId) : Moves Works (demand ctx e) where
  along s :=
    have h := (executes_demandFrom s.decls ctx e).along s
    ⟨s.decls, h.grows.decls.subset, h⟩
  traced := (moves_demand (R := Pass.Grows) ctx e).traced

instance : Complains Works where
  complain s d hd := Works.of_executes (.of_eq (AllowsAll.complain s d hd) (.report s d hd) rfl rfl rfl)

instance : DeclaresLocals Works where
  expr ctx reading e _ := moves_expr works_demand ctx reading e
  demand ctx e _ := works_demand ctx e
  locals ctx d _ := moves_localVariables (moves_expr works_demand ctx) d

end Check

end Statics
