import Statics.Proofs.Validity.Programs

/-!
# Checking only adds

What is in a state stays there: types with their bases, scopes with their parents and bindings, entities with their
type, their value and the mark that they are used.

Every change that a routine makes keeps growth, scopes and marks. The check of a declaration sets the value of a
constant anew, but it is only started where the constant has no type, and a constant with a value has one.
-/

namespace Statics

variable {s : Pass} {α : Type}

/-- What is known in a state is known in another. -/
structure Pass.Adds (s t : Pass) : Prop where
  types : ∀ u τ, s.store.arena.type? u = some τ →
    ∃ σ, t.store.arena.type? u = some σ ∧ ∀ name base e, τ = .named name (some base) e → σ = τ
  scopes : ∀ h c, s.store.arena.scope? h = some c →
    ∃ d, t.store.arena.scope? h = some d ∧ d.parent = c.parent ∧ c.bindings.entries <+: d.bindings.entries
  entities : ∀ e x, s.store.arena.entity? e = some x → ∃ y, t.store.arena.entity? e = some y ∧
    (∀ u, x.type = some u → y.type = some u) ∧ (∀ v, x.kind = .constant (some v) → y.kind = .constant (some v)) ∧
      (x.used → y.used)

theorem Pass.Adds.of_relations {t : Pass} (hs : s.Valid) (hgrows : s.Grows t) (hmaintains : s.Maintains t)
    (hvalues : ∀ m, KeepsValue m s t) : s.Adds t where
  types u τ hτ := ⟨τ, hgrows.store.toExtends.types u τ hτ, fun _ _ _ _ => rfl⟩
  scopes := hmaintains.scopes
  entities e x hx := by
    obtain ⟨y, hy, hkeeps⟩ := hgrows.store.toExtends.entities e x hx
    refine ⟨y, hy, hkeeps.type, fun v hv => ?_, fun hused => ?_⟩
    · obtain ⟨u, hu, -⟩ := (hs.intact.entities e x hx).value v hv
      obtain ⟨z, hz, -, hkind⟩ := hvalues e x v hx (by simp [hu]) hv
      exact Option.some.inj (hy.symm.trans hz) ▸ hkind
    · obtain ⟨z, hz, hused⟩ := hmaintains.used e x hx hused
      exact Option.some.inj (hy.symm.trans hz) ▸ hused

namespace Check

/-- The two ways to demand declarations: of those that are kept, or of those that are pending. -/
def Demanding (resolve : Resolver) : Prop := resolve = demand ∨ ∃ pending, resolve = demandFrom pending

/-- The routines of a check, with what holds where they are started. The check of a declaration is only started for an
entity without a type, and statements stand in no declaration of a type. -/
inductive Routine (s : Pass) : {α : Type} → Check α → Prop where
  | demand {resolve : Resolver} : Demanding resolve → ∀ ctx e, Routine s (resolve ctx e)
  | expr {resolve : Resolver} : Demanding resolve → ∀ ctx reading e, Routine s (expr resolve ctx reading e)
  | signature {resolve : Resolver} : Demanding resolve → ∀ ctx scope sig, Routine s (signature resolve ctx scope sig)
  | declaration {resolve : Resolver} {e : EntityId} : Demanding resolve → (s.store.arena.entity e).type = none →
    ∀ ctx d, Routine s (declaration resolve ctx e d)
  | uses {ctx : Context} : ctx.AtTop → ∀ targets, Routine s (uses ctx targets)
  | stmt {ctx : Context} : ctx.AtTop → ∀ allowed u, Routine s (stmt ctx allowed u)
  | stmtsInOrder {ctx : Context} : ctx.AtTop → ∀ allowed us, Routine s (stmtsInOrder ctx allowed us)
  | block {ctx : Context} : ctx.AtTop → ∀ allowed b, Routine s (block ctx allowed b)
  | hoistAll {ctx : Context} : ctx.AtTop → ∀ us, Routine s (hoistAll ctx us)
  | body (config : Config) (b : Body) : Routine s (body config b)
  | bodyAndNested (config : Config) (b : Body) : Routine s (bodyAndNested config b)

/-- Routines move along every relation that allows what they do, given that it allows the check of a declaration where
that is started. -/
theorem Routine.along {R : Pass → Pass → Prop} [Declares R] [BuildsTypes R] {x : Check α} (h : Routine s x)
    (hr : ∀ pending ctx e, Moves R (demandFrom pending ctx e))
    (hd : ∀ {resolve : Resolver}, (∀ ctx e, Moves R (resolve ctx e)) → ∀ ctx e d, (s.store.arena.entity e).type = none →
    R s ((Check.declaration resolve ctx e d).after s)) : R s (x.after s) := by
  have hdemanding {resolve : Resolver} (h : Demanding resolve) (ctx : Context)
    (e : EntityId) : Moves R (resolve ctx e) := by
    rcases h with rfl | ⟨pending, rfl⟩
    · exact moves_read (fun _ _ => rfl) fun s => hr s.decls ctx e
    · exact hr pending ctx e
  cases h with
  | demand h ctx e => exact (hdemanding h ctx e).along s
  | expr h ctx reading e => exact (moves_expr (hdemanding h) ctx reading e).along s
  | signature h ctx scope sig => exact (moves_anySignature (hdemanding h)).along s
  | declaration h he ctx d => exact hd (hdemanding h) ctx _ d he
  | uses hc targets =>
    exact (moves_uses (moves_resolve hc) fun e _ => moves_usingTarget (moves_evaluate hc .value _)).along s
  | stmt hc allowed u => exact (moves_stmt hc allowed).along s
  | stmtsInOrder hc allowed us => exact (moves_stmtsInOrder hc allowed).along s
  | block hc allowed b => exact (moves_block hc allowed b).along s
  | hoistAll hc us => exact (moves_hoistAll hc us).along s
  | body config b => exact (moves_body fun _ _ => trivial).along s
  | bodyAndNested config b => exact (moves_bodyAndNested config b).along s

theorem Routine.along_all {R : Pass → Pass → Prop} [AllowsAll R] {x : Check α} (h : Routine s x) :
    R s (x.after s) := h.along moves_demandFrom fun hr ctx e d _ => (moves_declaration hr ctx e d).along s

theorem Routine.keepsValue {x : Check α} (h : Routine s x) (m : EntityId) : KeepsValue m s (x.after s) := by
  refine h.along keepsValue_demandFrom fun hr ctx e d he y v hy htype hkind => ?_
  have hne : e ≠ m := by
    rintro rfl
    rw [Arena.entity_eq hy] at he
    simp [he] at htype
  exact (keepsValue_declaration hr ctx hne d).along s y v hy htype hkind

end Check

/-- In every state of a check, every routine only adds to what is known, however it ends. -/
theorem checking_only_adds (config : Config) (files : List File) : Program.Throughout config files fun s =>
    ∀ {α : Type} (x : Check α), Check.Routine s x → s.Adds (x.after s) :=
  (Program.throughout_valid config files).imp fun _ hs _ _ hx =>
    .of_relations hs hx.along_all hx.along_all hx.keepsValue

end Statics
