import Statics.Proofs.Containment.Declarations

/-!
# Passes keep the layout

Between the declarations that statements and files ask for, no name is open. This invariant is kept by every statement,
every body and the file level.
-/

namespace Statics

/-- What holds where no declaration is being checked. -/
abbrev Pass.AtRest : Pass → Prop := Pass.Ready (fun _ => False) [] [] 0

namespace Check

variable {α : Type} {focus : EntityId → Prop} {pending : Pending} {path : List (EntityId × Nat)}
  {n : Nat}

/-- Entering declarations adds entities without types, so it keeps the layout and belongs to those entities. -/
theorem moves_entering {x : Check α} (hlog : Moves LogGrows x) (hl : Moves Lightly x)
    (hd : Moves KeepsDeclared x) : Moves (Keeps (Pass.Ready focus pending path n)) x := by
  refine .of_clean hlog Pass.Ready.room fun h hs => ?_
  have hlight := hl.ok h.run
  exact ⟨hs.room.of_silent (hlog.ok h.run) h.silent, hs.stacked.grows hlight.grows.store,
    (hd.ok h.run).declared hs.declared, List.Subset.trans hs.pending hlight.grows.decls.subset,
    fun e he => (hs.focus e he).imp fun _ hown => ⟨hown.1, hown.2.grows hlight.grows.store⟩,
    hs.layout.light (hlight.lightly hs.stacked)⟩

theorem moves_exprAt {ctx : Context} (hc : ctx.AtTop) (reading : Reading) (e : Expr) :
    Moves (Keeps (Pass.Ready focus [] [] 0)) (expr demand ctx reading e) := by
  have h := (reads_expr (resolves_demand focus) e).moves ctx reading
  rwa [Pass.ReadyIn, hc.1, hc.2] at h

/-- Local variables may be settled from when they are made. -/
theorem localVariables_spec {ctx : Context} (hc : ctx.AtTop) {d : VarDecl} {s t : Pass}
    (h : Clean (localVariables ctx d) s () t) (hs : s.AtRest) : t.AtRest := by
  have hvars := fun es => moves_varDecl (R := LogGrows) (moves_expr moves_demand ctx)
    (fun _ (_ : _ ∈ es) => trivial) d.type d.values
  obtain ⟨es, s₁, hnew, h⟩ := h.split (by grind)
  obtain ⟨_, s₂, hdecl, h⟩ := h.split (by grind)
  have hs₁ : s₁.AtRest := moves_newVariables.clean hnew hs
  have hfocus : s₁.Ready (· ∈ es) [] [] 0 :=
    hs₁.withFocus fun e he => ⟨"variable", by simp, owns_newVariables hnew.run e he⟩
  have hmoves : Moves (Keeps (Pass.Ready (· ∈ es) [] [] 0)) (varDecl demand ctx es d.type d.values) :=
    moves_varDecl (fun reading e => moves_exprAt hc reading e) (fun _ he => he) d.type d.values
  have hs₂ :=
    hs₁.regain ((moves_varDecl (moves_expr moves_demand ctx) (fun _ _ => trivial) d.type d.values).ok hdecl.run)
    (hmoves.clean hdecl hfocus)
  have hrest : Moves (Keeps Pass.AtRest) (do
      bindVariables ctx.scope (d.names.zip es)
      if d.exposes then exposeVariables ctx.scope es) := by grind
  exact hrest.clean h hs₂

instance : Declares (Keeps Pass.AtRest) where
  complain := .report Pass.Ready.room
  expr ctx reading e hc := moves_exprAt hc reading e
  demand ctx e hc := by
    have h := (resolves_demand fun _ => False).moves ctx e
    rwa [Pass.ReadyIn, hc.1, hc.2] at h
  dequeue s := .light (.of_store_eq (AllowsAll.dequeue s) rfl) rfl rfl
  register h := moves_entering (Registers.register h) (Registers.register h) (Registers.register h)
  locals ctx d hc := .of_clean (DeclaresLocals.locals ctx d hc) Pass.Ready.room fun h hs => localVariables_spec hc h hs

instance : ReadsFiles (Keeps Pass.AtRest) where
  openFile s files := .light (.of_store_eq (AllowsAll.openFile s files) rfl) rfl rfl
  newImport s info token ident := .light (.of_types ⟨AllowsAll.newImport s info token ident, s.store.spares_newEntity
    (by simp [Arena.TypedName, Entity.typed])⟩ (Store.type?_congr rfl rfl rfl)) rfl rfl
  addImport s e := .light (.of_store_eq (AllowsAll.addImport s e) rfl) rfl rfl
  warn s d hd := ⟨LogGrows.warn s d hd, fun _ h => { h with }⟩

end Check

end Statics
