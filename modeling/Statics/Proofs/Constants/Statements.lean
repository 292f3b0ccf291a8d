import Statics.Proofs.Constants.Declarations

/-!
# Passes check the constants and type names that they enter

Constants and type names are entered before they are checked, in a statement list or at file level, each with a
declaration that stands in some file. So whatever a pass checks comes from the files.
-/

namespace Statics

variable {config : Config} {ctx : Context} {d : Declaration} {x : Entity} {e : EntityId} {es : List EntityId}
  {scope : ScopeId}

variable {files : List File} {pending : Pending} {underway : List EntityId}
  {focus : EntityId → Prop} {s t : Pass}

/-- What holds where no declaration is being checked. -/
abbrev Pass.Tallied (files : List File) : Pass → Prop := Pass.Valued files [] [] fun _ => False

namespace Pass.Valued

/-- A declaration is kept. -/
theorem await (h : s.Valued files pending underway focus)
    (hd : d.Suits s.store e) (hfrom : d.ComesFrom files s.store.arena e) :
    Pass.Valued files pending underway focus { s with decls := (e, d) :: s.decls } := by
  refine { h with declared := ?_, pending := List.subset_cons_of_subset _ h.pending, origins := ?_ }
  · exact List.forall_mem_cons.mpr ⟨hd, h.declared⟩
  · exact List.forall_mem_cons.mpr ⟨hfrom, h.origins⟩

/-- A new constant or type name is checked later. -/
theorem newWaiting (h : s.Valued files pending underway focus) (hx : x.type = none) :
    Pass.Valued files pending underway focus { s with store := (s.store.newEntity x).2 } := by
  have ha := Advances.of_grows (.of_store (.newEntity s.store x))
  refine h.advance ha (s.store.spares_newEntity ?_) h.room (ha.declared rfl h.declared) (List.Subset.refl _)
    (fun p hp => ha.comesFrom (h.origins p hp)) h.queue
  rintro ⟨-, htyped⟩
  simp [hx] at htyped

end Pass.Valued

/-! ## Entering declarations -/

instance : Prepares (Carries (Pass.Valued files pending underway focus)) where
  newWaiting s x hx := ⟨.of_eq rfl fun h => h.newWaiting hx, Prepares.newWaiting s x hx⟩
  hoist s id := .spare (.of_store_eq (Prepares.hoist s id) rfl) rfl rfl rfl

/-- Declarations are being entered that come from some file, or an error was reported. -/
structure Enrols (files : List File) (pending : Pending) (underway : List EntityId) (focus : EntityId → Prop) (s : Pass)
    (r : Roll) (t : Pass) : Prop where
  carries : Carries (Pass.Valued files pending underway focus) s t
  made : r.Made t.store
  faulty : r.faulty → s.Silent t → ¬ s.Valued files pending underway focus

section

variable {decl : Decl} {r r' : Roll} {u : Pass} (hd : Decl.Within files decl)

include hd

theorem comesFrom_of_keeps (hr : r.Made s.store) (h : r.Keeps (decl.Keeps scope) e) (hf : r.faulty = false) :
    r.decl.ComesFrom files s.store.arena e := by
  obtain ⟨name, he, hk⟩ := h.name
  obtain ⟨-, x, hx, -, hident⟩ := hr _ he
  have hvalue := h.value hf
  generalize r.decl = kept at hk hvalue ⊢
  cases hk with
  | vars => trivial
  | constant d hmem =>
    obtain ⟨init, rfl⟩ := Option.isSome_iff_exists.mp hvalue
    exact ⟨name, init, x, rfl, ⟨d, hd, hmem init rfl⟩, hx, hident⟩
  | type d => exact ⟨d.name, x, ⟨d, hd, rfl, rfl⟩, hx, hident⟩
  | proc d => exact hd

theorem enrols_step (h : Roll.Step scope (decl.Keeps scope) r t r' u) (ht : Enrols files pending underway focus s r t) :
    Enrols files pending underway focus s r' u := by
  have hlog : LogGrows t u := h.along fun _ => Enters.await t _
  have hgrows : t.Grows u := h.along fun _ => Enters.await t _
  refine ⟨?_, h.made ht.made, ?_⟩
  · cases hf : r.faulty with
    | false =>
      refine ht.carries.trans (h.along fun hk => ⟨.of_eq rfl fun hs => ?_, Enters.await t _⟩)
      exact hs.await (Roll.Step.suits ht.made hk) (comesFrom_of_keeps hd ht.made hk hf)
    | true =>
      refine ⟨⟨ht.carries.log.trans hlog, fun hs hv => ?_⟩, ht.carries.grows.trans hgrows⟩
      exact absurd hv (ht.faulty hf (hs.split ht.carries.log hlog).1)
  · cases h with
    | report token hp =>
      intro _ hs hv
      obtain ⟨hst, htu⟩ := hs.split ht.carries.log hlog
      exact Check.along_emit (R := fun s u => ¬ s.Silent u) ((ht.carries.keeps hst hv).room.not_silent rfl) htu
    | _ => exact fun hf hs => ht.faulty hf (hs.split ht.carries.log hlog).1

end

instance : Receives (Carries (Pass.Valued files pending underway focus)) (Decl.Within files) where
  receive hd h := h.moves (I := Enrols files pending underway focus) (enrols_step hd)
    (fun s => ⟨Reports.refl s, by simp [Roll.Made, Roll.blank], by simp [Roll.blank]⟩) Enrols.carries

namespace Check

/-! ## Statements -/

instance : Frames (Carries (Pass.Tallied files)) where
  expr ctx reading e _ := moves_expr ((keeping_demand files).carries [] _) ctx reading e
  demand ctx e _ := (keeping_demand files).carries [] _ ctx e
  dequeue s := ⟨.of_eq rfl fun h => { h with queue := by simp }, AllowsAll.dequeue s⟩

instance : ReadsFiles (Carries (Pass.Tallied files)) where
  openFile s files := .spare (.of_store_eq (AllowsAll.openFile s files) rfl) rfl rfl rfl
  newImport s info token ident := .spare ⟨AllowsAll.newImport s info token ident, s.store.spares_newEntity
    (by rintro (h | h) <;> simp [Entity.typed] at h)⟩ rfl rfl rfl
  addImport s e := .spare (.of_store_eq (AllowsAll.addImport s e) rfl) rfl rfl rfl
  warn s d hd := ⟨⟨.warn s d hd, fun _ h => { h with }⟩, AllowsAll.warn s d hd⟩

/-- Local variables may be settled from when they are made. -/
theorem tallied_localVariables {d : VarDecl} (h : Clean (localVariables ctx d) s () t)
    (hs : s.Tallied files) : t.Tallied files := by
  have hvars := fun es => moves_varDecl (R := LogGrows) (moves_expr moves_demand ctx)
    (fun _ (_ : _ ∈ es) => trivial) d.type d.values
  obtain ⟨es, s₁, hnew, h⟩ := h.split (by grind)
  obtain ⟨_, s₂, hdecl, h⟩ := h.split (by grind)
  have hs₁ : s₁.Tallied files := moves_newVariables.carried hnew hs
  have hfocus : s₁.Valued files [] [] (· ∈ es) :=
    hs₁.withFocus fun e he => ⟨"variable", by simp, by simp, owns_newVariables hnew.run e he⟩
  have hmoves : Moves (Carries (Pass.Valued files [] [] (· ∈ es))) (varDecl demand ctx es d.type d.values) :=
    moves_varDecl (moves_expr ((keeping_demand files).carries _ _) ctx) (fun _ he => he) d.type d.values
  have hs₂ :=
    hs₁.regain ((moves_varDecl (moves_expr moves_demand ctx) (fun _ _ => trivial) d.type d.values).ok hdecl.run)
    (hmoves.carried hdecl hfocus)
  have hrest : Moves (Carries (Pass.Tallied files)) (do
      bindVariables ctx.scope (d.names.zip es)
      if d.exposes then exposeVariables ctx.scope es) := by grind
  exact hrest.carried h hs₂

theorem carries_localVariables (hc : ctx.AtTop) (d : VarDecl) :
    Moves (Carries (Pass.Tallied files)) (localVariables ctx d) :=
  .carries (DeclaresLocals.locals ctx d hc) (DeclaresLocals.locals ctx d hc) Pass.Valued.room tallied_localVariables

instance : Proceeds (Carries (Pass.Tallied files)) (Decl.Within files) where
  complain := .report Pass.Valued.room
  decl _ _ hc hd := follows_declStmt (moves_resolve hc) (fun d _ => carries_localVariables hc d) hd
  hoist _ _ hc hd := follows_hoistAll (moves_resolve hc) hd

/-! ## Bodies -/

theorem tallied_drain {rounds : Nat} (h : Clean (drain config rounds) s () t)
    (hs : s.Tallied files) : t.Tallied files := by
  induction rounds generalizing s with
  | zero =>
    obtain ⟨-, rfl⟩ := h.of_pure
    exact hs
  | succ rounds ih =>
    have hlog (bs : List Body) : Moves LogGrows (bodies config bs) := moves_bodies fun _ _ _ _ => trivial
    have hdrain := moves_drain (R := LogGrows) config rounds
    obtain ⟨queue, s₁, hqueue, h⟩ := h.bind (.of_ok (fun _ _ => rfl) fun s => ⟨_, _, rfl, AllowsAll.dequeue s⟩)
      fun bs => moves_bind (hlog bs) fun _ => hdrain
    cases hqueue.run
    obtain ⟨_, s₂, hbodies, h⟩ := h.bind (hlog _) fun _ => hdrain
    have hs₁ : Pass.Tallied files { s with queue := [] } := { hs with queue := by simp }
    have hmoves : Moves (Carries (Pass.Tallied files)) (bodies config s.queue) :=
      moves_bodies fun b hb d hd => (hs.queue b hb).within hd
    exact ih h (hmoves.carried hbodies hs₁)

/-- A body is checked with the procedures inside it. -/
theorem tallied_bodyAndNested {b : Body} (hb : b.ComesFrom files)
    (h : Clean (bodyAndNested config b) s () t) (hs : s.Tallied files) : t.Tallied files := by
  have hlog : Moves LogGrows (body config b) := moves_body fun _ _ => trivial
  obtain ⟨_, s₁, hbody, h⟩ := h.bind hlog fun _ => moves_drain config b.block.nesting
  have hmoves : Moves (Carries (Pass.Tallied files)) (body config b) := moves_body fun d hd => hb.within hd
  exact tallied_drain h (hmoves.carried hbody hs)

/-! ## The file level -/

theorem tallied_fileLevel (h : Clean (fileLevel config files) s () t) (hs : s.Tallied files) : t.Tallied files := by
  have hmoves : Moves (Carries (Pass.Tallied files)) (fileLevel config files) :=
    follows_fileLevel (moves_openFiles files) moves_resolveFiles fun _ hfile _ hd => .file hfile hd
  exact hmoves.carried h hs

end Check

end Statics
