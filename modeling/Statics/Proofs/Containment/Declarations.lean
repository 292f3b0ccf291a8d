import Statics.Proofs.Containment.TypeForms

/-!
# Demands keep the layout

A declaration of a named type opens its name, reads its type expression and closes the name, with the newest type as
its base. A demand runs one declaration, with the demands inside it running others, so the layout is kept by induction
on the declarations that are still pending.
-/

namespace Statics

variable {ctx : Context} {focus' : EntityId → Prop}

variable {focus : EntityId → Prop} {pending : Pending} {path : List (EntityId × Nat)} {n : Nat}

/-! ## The invariant with another focus -/

namespace Pass.Ready

variable {s t : Pass}

theorem withPending {rest : Pending} (h : s.Ready focus pending path n) (hrest : rest ⊆ s.decls) :
    s.Ready focus rest path n := { h with pending := hrest }

theorem withFocus (h : s.Ready focus pending path n)
    (hf : ∀ e, focus' e → ∃ sort, sort ≠ "type name" ∧ s.store.Owns e sort) : s.Ready focus' pending path n :=
  { h with focus := hf }

/-- What may be settled and checked before a run may be so after it. -/
theorem regain {rest : Pending} (h : s.Ready focus pending path n)
    (hg : s.Grows t) (ht : t.Ready focus' rest path n) : t.Ready focus pending path n := by
  refine { ht with pending := List.Subset.trans h.pending hg.decls.subset, focus := fun e he => ?_ }
  obtain ⟨sort, hsort, hown⟩ := h.focus e he
  exact ⟨sort, hsort, hown.grows hg.store⟩

end Pass.Ready

/-! ## Opening a name -/

/-- Adding a named type and making it the type of its entity opens a name. -/
theorem Store.Stacked.opens {s : Store} (h : s.Stacked) (hown : s.Owns e "type name")
    (hnone : (s.arena.entity e).type = none) (name : String) :
    s.arena.Opens (s.newType (.named name none e)).1 name e
      ((s.newType (.named name none e)).2.setType e (s.newType (.named name none e)).1).arena := by
  have hadds := h.adds (.named name none e)
  obtain ⟨x, hx, -⟩ := hown.entity
  have htype : x.type = none := by simpa [Arena.entity, hx] using hnone
  refine ⟨?_, ?_, hadds.last, ?_, ?_, ?_⟩
  · rw [Store.setType, type?_modifyEntity]
    exact hadds.new
  · intro u hu
    rw [Store.setType, type?_modifyEntity]
    exact hadds.rest hu
  · rw [Arena.entity, Store.setType, entity?_modifyEntity, if_pos ⟨hown.slab, rfl⟩, hadds.entities, hx]
    simp [htype]
  · intro e' he
    rw [Store.setType, entity?_modifyEntity, if_neg fun h => he h.2]
    exact hadds.entities e'
  · exact ((Grows.newType s _).trans (.setType ..)).toExtends

namespace Arena

variable {a b c d : Arena} {t u : TypeId} {name : String} {e : EntityId}

theorem Opens.eq_or_before (h : a.Opens t name e b) (hu : (b.type? u).isSome) : u = t ∨ u.before t := by
  by_cases hut : u = t
  · exact .inl hut
  · exact .inr (h.last (by rwa [h.rest hut] at hu))

/-- A pointer or slice that was added after a name is younger than all others, if the newest type has parts. -/
theorem Tops.before_base (h : Tops b c u) (hopen : a.Opens t name e b) (hp : c.parts (c.baseType u) ≠ []) {p : TypeId}
    (hpi : c.IsIndirect p) (htp : t.before p) : p.before (c.baseType u) := by
  rcases h with hnames | htop
  · -- All types since then are names, and a pointer is none.
    have hnew : b.type? p = none := by
      by_contra hsome
      rcases hopen.eq_or_before (Option.isSome_iff_ne_none.mpr hsome) with rfl | hpt
      · exact not_before_self p htp
      · simp only [Handle.before] at hpt htp
        omega
    obtain ⟨name', base, e', hn⟩ := hnames p hnew hpi.isSome
    obtain ⟨elem, hp' | hp'⟩ := hpi <;> simp [hn] at hp'
  · rcases htop hp p hpi.isSome with rfl | hbefore
    · exact absurd hpi.parts hp
    · exact hbefore

/-- The base of a name that was closed is the newest type again. -/
theorem Tops.close {path : List (EntityId × Nat)} {n : Nat} {base : TypeId} (h : Tops b c u)
    (hopen : a.Opens t name e b) (hx : b.Extends c) (hclose : c.Refills t (.named name (some base) e) d)
    (hl : d.Layout path n) (hbase : c.parts base ≠ [] → base = c.baseType u) : Tops a d t := by
  have hhas : d.HasBase t base := ⟨name, e, by simp [type, hclose.new]⟩
  have hbaseType : d.baseType t = base := baseType_of_hasBase hhas ((hl.types t hhas.isName.isSome).bases hhas)
  rcases h with hnames | htop
  · left
    intro v hold hnew
    rw [hclose.isSome_type_iff] at hnew
    rw [hclose.isName_iff]
    by_cases hv : v = t
    · rw [hv, hx.isName_iff (by simp [hopen.new])]
      exact ⟨name, none, e, by simp [type, hopen.new]⟩
    · exact hnames v (by rw [hopen.rest hv, hold]) hnew
  · right
    rw [hbaseType, hclose.parts_eq]
    intro hp v hv
    obtain rfl := hbase hp
    exact htop hp v (hclose.isSome_type_iff.mp hv)

end Arena

namespace Check

variable {resolve : Resolver}

/-- A declaration of a named type opens its name and closes it with the newest type. -/
theorem namedType_spec (hr : Resolves focus pending resolve) {type : Expr} {t : Pass}
    (h : Clean (namedType resolve ctx e type) s () t) (hs : s.ReadyIn focus pending ctx)
    (hown : s.store.Owns e "type name") (hnone : (s.store.arena.entity e).type = none) :
    t.ReadyIn focus pending ctx ∧
      ∃ u, (t.store.arena.entity e).type = some u ∧ s.store.arena.Tops t.store.arena u := by
  have hlog := fun reading x => moves_expr hr.log (ctx.declaring e) reading x
  have hsetType := fun u => moves_setType (R := LogGrows) (F := fun _ => True) (e := e) trivial u
  unfold namedType at h
  have h := h.readEntity
  obtain ⟨named, s₂, hnew, h⟩ := h.split (by grind)
  obtain ⟨_, s₃, hset, h⟩ := h.split (by grind)
  obtain ⟨y, s₄, hy, h⟩ := h.split (by grind)
  have hstore := h.readArena
  -- The name is open from here on.
  have hopens := hs.stacked.opens hown hnone (s.store.arena.entity e).name
  generalize (s.store.arena.entity e).name = name at hopens hnew
  obtain ⟨rfl, rfl⟩ := newType_ok hnew.run
  cases hset.run
  have hs₃ := hs.change (.of_store ((Store.Grows.newType ..).trans (.setType ..))) rfl rfl (hs.layout.openName hopens)
  have hreads := reads_expr hr type
  have hs₄ := (hreads.moves (ctx.declaring e) _).clean hy hs₃
  have hyields := hreads.yields hy hs₃
  have hgrows : Pass.Grows _ s₄ := (moves_expr hr.grows (ctx.declaring e) _ type).ok hy.run
  have hbase := hs₄.layout.namedBase_spec hyields.usable.isSome
  -- It is closed with what the type expression yielded.
  have hopen := hgrows.store.toExtends.types _ _ hopens.new
  have hlocal := (hgrows.store.id.trans (Store.Grows.setType ..).id).symm
  have hrefills := Store.refills hlocal hopen (Ty.withBase (namedBase s₄.store.arena y.type))
    (.inl ⟨name, e, rfl, _, rfl⟩)
  have hlayout := hs₄.layout.closeName (by simp [Arena.type, hopen]) hrefills ?_ hbase.1 ?_
  · cases hstore.run
    refine ⟨hs₄.refill _ _ hlayout, (s.store.newType (.named name none e)).1, ?_, ?_⟩
    · rw [Arena.entity, Store.entity?_modifyType]
      exact hgrows.store.toExtends.entity_type hopens.entity
    · exact hyields.tops.close hopens hgrows.store.toExtends hrefills hlayout hbase.2
  · -- What is open around here has a type.
    intro d hd
    have htyped := (hs.layout.within _ hd).2
    simp [hnone] at htyped
  · intro hp p hpi htp
    have hb := hbase.2 hp
    rw [hb] at hp ⊢
    exact hyields.tops.before_base hopens hp hpi htp

/-- A declaration keeps the invariant, and a type name it declares gets a type with the newest base. -/
theorem declaration_spec (hr : ∀ focus, Resolves focus pending resolve) {d : Declaration}
    {t : Pass} (h : Clean (declaration resolve ctx e d) s () t)
    (hs : s.ReadyIn focus pending ctx) (hd : d.Suits s.store e)
    (hnone : (s.store.arena.entity e).type = none) :
    t.ReadyIn focus pending ctx ∧ ∀ {u}, (t.store.arena.entity e).kind = .typeName →
      (t.store.arena.entity e).type = some u → s.store.arena.Tops t.store.arena u := by
  have hgrows : s.Grows t := (moves_declaration (hr focus).grows ctx e d).ok h.run
  -- Only the declaration of a named type is for a type name.
  have hother (hsort : d.sort ≠ "type name") : (t.store.arena.entity e).kind ≠ .typeName := by
    intro hk
    have hkind := (hd.own.grows hgrows.store).kind
    rw [hk] at hkind
    exact hsort hkind.symm
  have hown (hsort : d.sort ≠ "type name") : s.ReadyIn (· ∈ [e]) pending ctx :=
    hs.withFocus fun e' he => ⟨d.sort, hsort, List.mem_singleton.mp he ▸ hd.own⟩
  cases d with
  | constant scope type value =>
    have hmoves : Moves (Keeps (Pass.ReadyIn (· ∈ [e]) pending ctx))
        (constant resolve ctx e type value) :=
      moves_constant (fun reading x => (reads_expr (hr _) x).moves ctx reading) (List.mem_singleton_self e)
    exact ⟨hs.regain hgrows (hmoves.clean h (hown (by simp [Declaration.sort]))),
      fun hk => absurd hk (hother (by simp [Declaration.sort]))⟩
  | vars scope entities type values =>
    have hready : s.ReadyIn (· ∈ entities) pending ctx :=
      hs.withFocus fun v hv => ⟨"variable", by simp, hd.vars v hv⟩
    have hmoves : Moves (Keeps (Pass.ReadyIn (· ∈ entities) pending ctx))
        (varDecl resolve ctx entities type values) :=
      moves_varDecl (fun reading x => (reads_expr (hr _) x).moves ctx reading) (fun _ he => he) type values
    exact ⟨hs.regain hgrows (hmoves.clean h hready), fun hk => absurd hk (hother (by simp [Declaration.sort]))⟩
  | type scope type =>
    obtain ⟨hready, u, hu, htops⟩ := namedType_spec (hr focus) h hs hd.own hnone
    refine ⟨hready, fun _ hu' => ?_⟩
    rw [hu] at hu'
    cases hu'
    exact htops
  | proc scope d =>
    have hsig (scope : ScopeId) : Moves (Keeps (Pass.ReadyIn (· ∈ [e]) pending ctx))
        (signature resolve (ctx.within scope) (some scope) d.signature) :=
      moves_signature (fun f _ => (reads_expr (hr _) f.type).moves (ctx.within scope) _)
        fun x _ => (reads_expr (hr _) x).moves (ctx.within scope) _
    have hmoves : Moves (Keeps (Pass.ReadyIn (· ∈ [e]) pending ctx))
        (procedure resolve ctx e d) :=
      moves_procedure hsig (List.mem_singleton_self e)
        (fun _ _ _ s => .light (.of_store_eq (Demands.claimLink s _) rfl) rfl rfl)
        fun _ _ _ _ s => .light (.of_store_eq (Demands.enqueue s _) rfl) rfl rfl
    exact ⟨hs.regain hgrows (hmoves.clean h (hown (by simp [Declaration.sort]))),
      fun hk => absurd hk (hother (by simp [Declaration.sort]))⟩

/-! ## Demands -/

/-- A demand keeps the invariant, if the demands for what is left do. -/
theorem demandFrom_spec {t : Pass} (hr : ∀ rest : Pending, rest.length < pending.length →
      ∀ focus, Resolves focus rest (demandFrom rest))
    (h : Clean (demandFrom pending ctx e) s () t) (hs : s.ReadyIn focus pending ctx) :
    t.ReadyIn focus pending ctx ∧ ∀ {u}, (t.store.arena.entity e).kind = .typeName →
      (t.store.arena.entity e).type = some u → s.store.arena.Tops t.store.arena u := by
  have hgrows : s.Grows t := (moves_demandFrom pending ctx e).ok h.run
  have hsame (ht : t = s) {u : TypeId} : s.store.arena.Tops t.store.arena u := by
    left
    intro v hold hnew
    simp [ht, hold] at hnew
  rcases h.demandFrom_cases with ⟨-, rfl⟩ | ⟨hnone, ⟨-, rfl⟩ | ⟨d, rest, u, taken, hrun, rfl⟩⟩
  · exact ⟨hs, fun _ _ => hsame rfl⟩
  · exact ⟨hs, fun _ _ => hsame rfl⟩
  · obtain ⟨hmem, hsub⟩ := subset_of_take? taken
    have hlt := length_lt_of_take? taken
    have hrest := keeps_record (hs.withPending (List.Subset.trans hsub hs.pending)) (.enter e)
    obtain ⟨ht, htops⟩ := declaration_spec (hr rest hlt) hrun hrest (hs.declared _ (hs.pending hmem)) hnone
    exact ⟨hs.regain hgrows (keeps_record ht (.leave e)), htops⟩

theorem resolves_demandFrom (pending : Pending) (focus : EntityId → Prop) :
    Resolves focus pending (demandFrom pending) := by
  have hr (rest : Pending) (_ : rest.length < pending.length) (focus : EntityId → Prop) :
      Resolves focus rest (demandFrom rest) := resolves_demandFrom rest focus
  refine ⟨fun ctx e => ?_, fun ctx e => moves_demandFrom pending ctx e, fun h hs => (demandFrom_spec hr h hs).2⟩
  exact .of_clean (moves_demandFrom pending ctx e) Pass.Ready.room fun h hs => (demandFrom_spec hr h hs).1
termination_by pending.length

/-- Where no declaration is being checked, all are pending. -/
theorem resolves_demand (focus : EntityId → Prop) : Resolves focus [] demand where
  moves ctx e := .of_clean (moves_demand ctx e) Pass.Ready.room fun {s a t} h hs => by
    have hmoves := (resolves_demandFrom s.decls focus).moves ctx e
    exact (hmoves.clean h.demandFrom_of_demand (hs.withPending (List.Subset.refl _))).withPending (List.nil_subset _)
  grows ctx e := moves_demand ctx e
  tops {ctx e s t} h hs :=
    (resolves_demandFrom s.decls focus).tops h.demandFrom_of_demand (hs.withPending (List.Subset.refl _))

end Check

end Statics
