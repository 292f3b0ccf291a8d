import Statics.Proofs.Containment.Runs

/-!
# Type expressions keep the layout

Read as a type, an expression yields one that may be used by value where it stands. The two arguments are: a name that
is open here at the same depth is reported, and what is built behind a pointer or slice is older than that.
-/

namespace Statics

variable {ctx : Context} {base e : Expr} {field : Ident} {x y : Operand} {foundIn : Option ScopeId} {s : Pass}
  {u : TypeId}

variable {focus : EntityId → Prop} {pending : Pending} {resolve : Resolver}

/-- The check that a name forces keeps the invariant, and leaves a type with the newest base for a type name. -/
structure Resolves (focus : EntityId → Prop) (pending : List (EntityId × Declaration)) (resolve : Resolver) : Prop where
  moves : ∀ ctx e, Check.Moves (Keeps (Pass.ReadyIn focus pending ctx)) (resolve ctx e)
  grows : ∀ ctx e, Check.Moves Pass.Grows (resolve ctx e)
  tops : ∀ {ctx e s t}, Check.Clean (resolve ctx e) s () t →
    s.ReadyIn focus pending ctx → ∀ {u}, (t.store.arena.entity e).kind = .typeName →
      (t.store.arena.entity e).type = some u → s.store.arena.Tops t.store.arena u

theorem Resolves.log (hr : Resolves focus pending resolve) (ctx : Context) (e : EntityId) :
    Check.Moves LogGrows (resolve ctx e) := (hr.moves ctx e).mono fun _ _ h => h.log

/-- A type that may be used by value here, and whose base is the newest type since a state. -/
structure Pass.Yields (s t : Pass) (ctx : Context) (u : TypeId) : Prop where
  usable : t.store.arena.Usable ctx.typePath ctx.indirection u
  tops : s.store.arena.Tops t.store.arena u

/-- An expression keeps the invariant and, read as a type, yields one that may be used. -/
structure Reads (focus : EntityId → Prop) (pending : List (EntityId × Declaration)) (resolve : Resolver) (e : Expr) :
    Prop where
  moves : ∀ ctx reading,
    Check.Moves (Keeps (Pass.ReadyIn focus pending ctx)) (Check.expr resolve ctx reading e)
  yields : ∀ {ctx declared s x t}, Check.Clean (Check.expr resolve ctx (.type declared) e) s x t →
    s.ReadyIn focus pending ctx → s.Yields t ctx x.type

namespace Arena

variable {a b : Arena} {path : List (EntityId × Nat)} {n : Nat} {t : TypeId}

theorem not_isName_of_light (h : (a.type t).isLight) : ¬ a.IsName t := by
  rintro ⟨name, base, e, ht⟩
  simp [ht, Ty.isLight] at h

theorem parts_of_light (h : (a.type t).isLight) : a.parts t = [] := by
  unfold parts
  cases ht : a.type t <;> simp_all [Ty.isLight]

/-- Types without names and parts may be used anywhere. -/
theorem usable_of_plain (hs : (b.type? t).isSome) (hn : ¬ b.IsName t) (hp : b.parts t = []) : b.Usable path n t where
  isSome := hs
  pending hu _ := absurd (hu.eq_of_parts hp ▸ hu.isName) hn

theorem tops_of_plain (hn : ¬ b.IsName t) (hp : b.parts t = []) : Tops a b t := by
  have hbase : b.baseType t = t := Arena.baseType_of_not_hasBase fun _ hb => hn hb.isName
  right
  rw [hbase, hp]
  exact fun hne => absurd rfl hne

end Arena

variable {t : Pass}

theorem Pass.Yields.of_light (hs : (t.store.arena.type? u).isSome) (h : (t.store.arena.type u).isLight) :
    s.Yields t ctx u :=
  ⟨Arena.usable_of_plain hs (Arena.not_isName_of_light h) (Arena.parts_of_light h),
    Arena.tops_of_plain (Arena.not_isName_of_light h) (Arena.parts_of_light h)⟩

theorem Pass.Ready.yields_invalid {path : List (EntityId × Nat)} {n : Nat} (h : t.Ready focus pending path n) :
    s.Yields t ctx .invalid := by
  have hinvalid := h.layout.invalid
  exact .of_light (by simp [hinvalid]) (by simp [Arena.type, hinvalid, Ty.isLight])

namespace Check

/-! ## Finishing expressions -/

theorem Clear.of_typeOperand {P : LogEntry → Prop} (h : Clear P (typeOperand e u) s x t) :
    x.type = u ∧ t.store = s.store := by
  cases h.run
  exact ⟨rfl, rfl⟩

/-- A name or selection that is read as a type stands for one, or was invalid before. -/
theorem finishName_spec {declared : Option TypeId} (h : Clean (finishName (.type declared) e x) s y t) :
    t.store = s.store ∧ (x.mode = .type ∧ y = x ∨ y.type = .invalid) := by
  obtain ⟨_, s₁, hnote, h⟩ := h.split (by grind)
  cases hnote.run
  split at h
  next hreading => cases hreading
  next hmode =>
    obtain ⟨rfl, rfl⟩ := h.of_pure
    exact ⟨rfl, .inl ⟨hmode, rfl⟩⟩
  next => exact ⟨h.of_typeOperand.2, .inr h.of_typeOperand.1⟩
  next => exact absurd h (refuses_rejectType e).not_clean

/-! ## Names and selections -/

theorem variableOperand_mode {v : VariableInfo} {name : String}
    (h : Clean (variableOperand ctx v u e name foundIn) s x t) : x.mode ≠ .type := by
  obtain ⟨a, s₁, -, h⟩ := h.split (by grind)
  split at h
  · obtain ⟨rfl, -⟩ := h.of_pure
    simp [Operand.invalid]
  · split at h
    · split at h
      · exact (h.not_report (by grind)).elim
      · obtain ⟨rfl, -⟩ := h.of_pure
        simp [Operand.var]
    · obtain ⟨rfl, -⟩ := h.of_pure
      simp [Operand.var]

/-- Only a type name stands for a type, and only if it is not open at the same depth. -/
theorem operandOf_type {y : Entity} {id : EntityId} (h : Clean (operandOf ctx y id e foundIn) s x t)
    (hx : x.mode = .type) : y.kind = .typeName ∧ (id, ctx.indirection) ∉ ctx.typePath ∧ x.type = y.type.getD .invalid ∧
    t = s := by
  have h := h.readArena
  split at h
  case h_4 hkind =>
    split at h
    · exact (h.not_report (by grind)).elim
    · rename_i hinside
      obtain ⟨rfl, rfl⟩ := h.of_pure
      exact ⟨hkind, by simpa [Context.isInside] using hinside, rfl, rfl⟩
  case h_3 => exact absurd hx (variableOperand_mode h)
  case h_7 =>
    exact (h.not_report (by grind)).elim
  all_goals
    obtain ⟨rfl, -⟩ := h.of_pure
    grind [Operand.invalid, Operand.constant, Operand.value, Operand.var, Operand.builtin]

section

variable (hr : Resolves focus pending resolve)

include hr

theorem entityOperand_yields {id : EntityId} (h : Clean (entityOperand resolve ctx id e foundIn) s x t)
    (hs : s.ReadyIn focus pending ctx) (hx : x.mode = .type) : s.Yields t ctx x.type := by
  have hlog := hr.log
  obtain ⟨_, s₁, hmark, h⟩ := h.split (by grind)
  obtain ⟨_, s₂, hresolve, h⟩ := h.split (by grind)
  have h := h.readEntity
  obtain ⟨hkind, hinside, htype, rfl⟩ := operandOf_type h hx
  have hs₁ := moves_markReached.clean hmark hs
  have ht := (hr.moves ctx.plainly id).clean hresolve hs₁
  rw [htype]
  cases hu : (t.store.arena.entity id).type with
  | none => exact ht.yields_invalid
  | some u =>
    refine ⟨ht.layout.usable_of_names (ht.layout.names hkind hu) hinside, ?_⟩
    have hsame : SameTypes s s₁ := moves_markReached.ok hmark.run
    rcases hr.tops hresolve hs₁ hkind hu with hnames | hnewest
    · exact .inl fun v hv => hnames v ((hsame v).trans hv)
    · exact .inr hnewest

theorem nameOperand_yields {name : Ident} (h : Clean (nameOperand resolve ctx e name) s x t)
    (hs : s.ReadyIn focus pending ctx) (hx : x.mode = .type) : s.Yields t ctx x.type := by
  have hlog := hr.log
  have hentity := fun id foundIn => moves_entityOperand (hlog ctx.plainly) id e foundIn
  unfold nameOperand at h
  split at h
  · exact (h.not_report (by grind)).elim
  · have h := h.readArena
    split at h
    · exact (h.not_report (by grind)).elim
    · obtain ⟨_, s₂, hrefer, h⟩ := h.split (by grind)
      have hy := entityOperand_yields hr h (moves_refer.clean hrefer hs) hx
      cases hrefer.run
      exact ⟨hy.usable, hy.tops⟩

theorem importSelection_yields {id : EntityId} {info : ImportInfo}
    (h : Clean (importSelection resolve ctx e base field id info) s x t) (hs : s.ReadyIn focus pending ctx)
    (hx : x.mode = .type) : s.Yields t ctx x.type := by
  have hlog := hr.log
  have hentity := fun id => moves_entityOperand (hlog ctx.plainly) id e none
  obtain ⟨_, s₁, hused, h⟩ := h.split (by grind)
  obtain ⟨_, s₂, hrefer, h⟩ := h.split (by grind)
  have h := h.readArena
  have hs₂ := moves_refer.clean hrefer ((moves_markUsed _).clean hused hs)
  split at h
  · exact (h.not_report (by grind)).elim
  · obtain ⟨_, s₄, hrefer', h⟩ := h.split (by grind)
    have hy := entityOperand_yields hr h (moves_refer.clean hrefer' hs₂) hx
    have hsame : SameTypes s s₄ := Reports.trans ((moves_markUsed _).ok hused.run)
      (Reports.trans (moves_refer.ok hrefer.run) (moves_refer.ok hrefer'.run))
    refine ⟨hy.usable, hy.tops.imp_left fun hnames v hv => hnames v ((hsame v).trans hv)⟩

/-- A member of an enum is no type name. -/
theorem memberSelection_mode (h : Clean (memberSelection resolve ctx e field u) s x t)
    (hs : s.ReadyIn focus pending ctx) : x.mode ≠ .type := by
  intro hx
  have hlog := hr.log
  have hentity := fun id => moves_entityOperand (hlog ctx.plainly) id e none
  have h := h.readArena
  split at h
  · rename_i member hmember
    obtain ⟨_, s₂, hrefer, h⟩ := h.split (by grind)
    obtain ⟨_, s₃, hmark, h⟩ := h.split (by grind)
    obtain ⟨_, s₄, hresolve, h⟩ := h.split (by grind)
    have h := h.readEntity
    obtain ⟨hkind, -⟩ := operandOf_type h hx
    have hgrows : s.Grows s₄ := Reports.trans (moves_refer.ok hrefer.run)
      (Reports.trans (moves_markReached.ok hmark.run) ((hr.grows _ _).ok hresolve.run))
    have hmem := List.mem_of_find?_eq_some hmember
    cases hms : s.store.arena.members? u with
    | none => simp [hms] at hmem
    | some members =>
      rw [hms, Option.getD_some] at hmem
      obtain ⟨z, hz, hzkind⟩ := hs.layout.members_spec hms hmem
      obtain ⟨w, hw, hzw⟩ := hgrows.store.toExtends.entities member z hz
      simp only [Arena.entity_eq hw] at hkind
      exact hzkind (hzw.typeName hkind)
  · exact (h.not_report (by grind)).elim

theorem selection_mode (h : Clean (selection resolve ctx e base field y) s x t) (hs : s.ReadyIn focus pending ctx) :
    x.mode ≠ .type := by
  unfold selection at h
  split at h
  · obtain ⟨rfl, -⟩ := h.of_pure
    simp [Operand.invalid]
  · exact memberSelection_mode hr h hs
  · obtain ⟨a, s₁, ha, h⟩ := h.split (by grind)
    split at h
    · obtain ⟨_, s₂, -, h⟩ := h.split (by grind)
      obtain ⟨rfl, -⟩ := h.of_pure
      grind [Operand.var, Operand.value]
    · exact (h.not_report (by grind)).elim

end

end Check

end Statics
