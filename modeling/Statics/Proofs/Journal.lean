import Statics.Proofs.Worklist.Files

/-!
# The journal of a pass

A pass writes down when the check of a declaration begins and when it is over, and when variables are read. The tests
that a demand makes are about other things: whether an entity has a type, whether its check is going on, whether a
variable was visited. `Pass.Journaled` says that the journal and the state agree: an entity that was entered has a
type or is active, variables that were read are visited, and where the entity of a declaration has a type, the journal
tells how it came by it. So the tests keep a declaration from being checked again.

`Recounts` says that runs keep this agreement, and the end of this file shows it of demands.
-/

namespace Statics

variable {d : Declaration} {e v : EntityId}

/-! ## Milestones -/

/-- Whether a milestone is that a variable is read. -/
def Milestone.reads (v : EntityId) : Milestone → Bool
  | .read group => group.contains v
  | _ => false

/-- The milestone that tells that a declaration was checked: its values were read, or its check began. -/
def Declaration.mark (e : EntityId) : Declaration → Milestone
  | .vars _ entities _ _ => .read entities
  | _ => .enter e

theorem Declaration.mark_of_mem (h : v ∈ d.variables) (e : EntityId) : d.mark e = .read d.variables := by
  cases d with
  | vars => rfl
  | _ => cases h

theorem Declaration.mark_of_sort (h : d.sort ≠ "variable") (e : EntityId) : d.mark e = .enter e := by
  cases d with
  | vars => exact absurd rfl h
  | _ => rfl

theorem Milestone.mem_of_mem_active {journal : List Milestone} (h : e ∈ active journal) : .enter e ∈ journal := by
  induction journal with
  | nil => cases h
  | cons m earlier ih =>
    cases m with
    | enter e' =>
      rcases List.mem_cons.mp h with rfl | h
      · exact List.mem_cons_self
      · exact List.mem_cons_of_mem _ (ih h)
    | leave e' => exact List.mem_cons_of_mem _ (ih (List.mem_filter.mp h).1)
    | read group => exact List.mem_cons_of_mem _ (ih h)

/-! ## States that agree with their journal -/

/-- The journal tells of every declaration that an entity has part in. -/
def Pass.Told (s : Pass) (e : EntityId) : Prop := ∀ p ∈ s.decls, e ∈ p.1 :: p.2.variables → p.2.mark p.1 ∈ s.journal

/-- The journal agrees with the state. What the journal has to tell of the entities in `late` is still to be written. -/
structure Pass.Journaled (late : List EntityId) (s : Pass) : Prop where
  once : ∀ e, s.journal.count (.enter e) ≤ 1
  nested : ∀ j, j <:+ s.journal → (Milestone.active j).Nodup
  entered : ∀ e, .enter e ∈ s.journal →
    e ∈ s.decls.map Prod.fst ∧ ((s.store.arena.entity e).type.isSome ∨ e ∈ s.active)
  readOnce : ∀ v, s.journal.countP (Milestone.reads v) ≤ 1
  visited : ∀ m ∈ s.journal, ∀ v, m.reads v → (s.store.arena.entity v).isVisited
  slab : ∀ m ∈ s.journal, ∀ v, m.reads v → v.slab = s.store.current.id
  present : ∀ p ∈ s.decls, ∀ e ∈ p.1 :: p.2.variables, (s.store.arena.entity? e).isSome
  groups : ∀ p ∈ s.decls, ∀ q ∈ s.decls, ∀ e ∈ p.1 :: p.2.variables, e ∈ q.1 :: q.2.variables → p.2 = q.2
  told : ∀ p ∈ s.decls, p.1 ∉ late → (s.store.arena.entity p.1).type.isSome ∨ .enter p.1 ∈ s.journal →
    p.2.mark p.1 ∈ s.journal
  toldVisited : ∀ p ∈ s.decls, ∀ v ∈ p.2.variables, (s.store.arena.entity v).isVisited → .read p.2.variables ∈ s.journal

theorem Pass.Told.later {s t : Pass} (h : s.Told e) (hd : t.decls = s.decls) (hj : s.journal <:+ t.journal) :
    t.Told e := by
  intro p hp he
  rw [hd] at hp
  exact hj.subset (h p hp he)

namespace Pass.Journaled

variable {late : List EntityId} {s t : Pass} {e : EntityId} {d : Declaration}

/-- The declarations that a group of variables has part in are all the same. -/
theorem mark_of_group (h : s.Journaled late) (hmem : (e, d) ∈ s.decls) (hv : v ∈ d.variables)
    {p : EntityId × Declaration} (hp : p ∈ s.decls) (hpv : v ∈ p.1 :: p.2.variables) :
    p.2.mark p.1 = .read d.variables := by
  rw [h.groups p hp _ hmem v hpv (List.mem_cons_of_mem _ hv)]
  exact Declaration.mark_of_mem hv p.1

/-- A declaration that the journal tells of is all that its entity has part in. -/
theorem told_of_mark (h : s.Journaled late) (hd : s.Declared) (hmem : (e, d) ∈ s.decls) (hmark : d.mark e ∈ s.journal) :
    s.Told e := by
  intro p hp he
  by_cases hsort : d.sort = "variable"
  · have hvar := (hd _ hmem).among hsort
    rw [h.mark_of_group hmem hvar hp he, ← Declaration.mark_of_mem hvar e]
    exact hmark
  · have hkind := (hd _ hmem).own.kind
    rcases List.mem_cons.mp he with rfl | he
    · have hsort' : p.2.sort ≠ "variable" := by rwa [← (hd p hp).own.kind, hkind]
      rwa [Declaration.mark_of_sort hsort', ← Declaration.mark_of_sort hsort]
    · exact absurd (hkind.symm.trans ((hd p hp).vars e he).kind) hsort

theorem told_of_enter (h : s.Journaled []) (hd : s.Declared) (henter : .enter e ∈ s.journal) : s.Told e := by
  obtain ⟨⟨_, d⟩, hmem, rfl⟩ := List.mem_map.mp (h.entered e henter).1
  exact h.told_of_mark hd hmem (h.told _ hmem (by simp) (.inr henter))

/-- Nothing is late once the journal tells of it. -/
theorem close (h : s.Journaled late) (hlate : ∀ e ∈ late, s.Told e) : s.Journaled [] := by
  refine { h with told := fun p hp _ hsome => ?_ }
  by_cases hmem : p.1 ∈ late
  · exact hlate p.1 hmem p hp List.mem_cons_self
  · exact h.told p hp hmem hsome

/-! ## Milestones of a check -/

/-- A check may begin that did not begin before. -/
theorem enter (h : s.Journaled []) (hmem : (e, d) ∈ s.decls) (hnone : (s.store.arena.entity e).type = none)
    (hactive : e ∉ s.active) : Journaled [e] { s with journal := .enter e :: s.journal } := by
  have hnew : .enter e ∉ s.journal := by
    intro henter
    rcases (h.entered e henter).2 with hsome | hmem
    · simp [hnone] at hsome
    · exact hactive hmem
  refine ⟨fun e' => ?_, fun j hj => ?_, fun e' he' => ?_, fun v => ?_, fun m hm v hv => ?_, fun m hm v hv => ?_,
    h.present, h.groups, fun p hp hlate hsome => ?_, fun p hp v hv hvisited => ?_⟩
  · rw [List.count_cons]
    by_cases he : e = e'
    · subst he
      simp [List.count_eq_zero_of_not_mem hnew]
    · simpa [he] using h.once e'
  · rcases List.suffix_cons_iff.mp hj with rfl | hj
    · exact List.nodup_cons.mpr ⟨hactive, h.nested _ (List.suffix_refl _)⟩
    · exact h.nested j hj
  · rcases List.mem_cons.mp he' with heq | he'
    · cases heq
      exact ⟨List.mem_map_of_mem hmem, .inr List.mem_cons_self⟩
    · exact (h.entered e' he').imp_right (.imp_right (List.mem_cons_of_mem e))
  · rw [List.countP_cons_of_neg (by simp [Milestone.reads])]
    exact h.readOnce v
  · rcases List.mem_cons.mp hm with rfl | hm
    · cases hv
    · exact h.visited m hm v hv
  · rcases List.mem_cons.mp hm with rfl | hm
    · cases hv
    · exact h.slab m hm v hv
  · refine List.mem_cons_of_mem _ (h.told p hp (by simp) (hsome.imp_right fun hmem => ?_))
    refine (List.mem_cons.mp hmem).resolve_left fun heq => hlate ?_
    cases heq
    exact List.mem_singleton_self _
  · exact List.mem_cons_of_mem _ (h.toldVisited p hp v hv hvisited)

/-- A check may end that gave its entity a type. -/
theorem leave (h : s.Journaled []) (hsome : (s.store.arena.entity e).type.isSome) :
    Journaled [] { s with journal := .leave e :: s.journal } := by
  have hactive : s.active.Nodup := h.nested _ (List.suffix_refl _)
  refine ⟨fun e' => ?_, fun j hj => ?_, fun e' he' => ?_, fun v => ?_, fun m hm v hv => ?_, fun m hm v hv => ?_,
    h.present, h.groups, fun p hp hlate htyped => ?_, fun p hp v hv hvisited => ?_⟩
  · rw [List.count_cons_of_ne (by simp)]
    exact h.once e'
  · rcases List.suffix_cons_iff.mp hj with rfl | hj
    · exact hactive.filter _
    · exact h.nested j hj
  · obtain ⟨hkey, hactive⟩ := h.entered e' ((List.mem_cons.mp he').resolve_left (by simp))
    refine ⟨hkey, ?_⟩
    by_cases he : e' = e
    · exact .inl (he ▸ hsome)
    · exact hactive.imp_right fun hmem => List.mem_filter.mpr ⟨hmem, by simpa using he⟩
  · rw [List.countP_cons_of_neg (by simp [Milestone.reads])]
    exact h.readOnce v
  · rcases List.mem_cons.mp hm with rfl | hm
    · cases hv
    · exact h.visited m hm v hv
  · rcases List.mem_cons.mp hm with rfl | hm
    · cases hv
    · exact h.slab m hm v hv
  · refine List.mem_cons_of_mem _ (h.told p hp hlate (htyped.imp_right fun hmem => ?_))
    exact (List.mem_cons.mp hmem).resolve_left (by simp)
  · exact List.mem_cons_of_mem _ (h.toldVisited p hp v hv hvisited)

end Pass.Journaled

/-! ## Variables that are visited -/

/-- The variables in `group` were visited, and nothing else happened. -/
structure Pass.Visits (group : List EntityId) (s t : Pass) : Prop where
  id : t.store.current.id = s.store.current.id
  decls : t.decls = s.decls
  journal : t.journal = s.journal
  entity : ∀ e x, s.store.arena.entity? e = some x → ∃ y, t.store.arena.entity? e = some y ∧ y.type = x.type ∧
    (e ∉ group → y.kind = x.kind)
  visited : ∀ v ∈ group, (t.store.arena.entity v).isVisited

namespace Pass.Visits

variable {group : List EntityId} {s t : Pass} (h : s.Visits group t) {e : EntityId}

include h

section

variable (he : (s.store.arena.entity? e).isSome)

include he

theorem isSome : (t.store.arena.entity? e).isSome := by
  obtain ⟨x, hx⟩ := Option.isSome_iff_exists.mp he
  obtain ⟨y, hy, -⟩ := h.entity e x hx
  simp [hy]

theorem type_eq : (t.store.arena.entity e).type = (s.store.arena.entity e).type := by
  obtain ⟨x, hx⟩ := Option.isSome_iff_exists.mp he
  obtain ⟨y, hy, htype, -⟩ := h.entity e x hx
  simpa [Arena.entity, hx, hy] using htype

theorem kind_eq (hgroup : e ∉ group) : (t.store.arena.entity e).kind = (s.store.arena.entity e).kind := by
  obtain ⟨x, hx⟩ := Option.isSome_iff_exists.mp he
  obtain ⟨y, hy, -, hkind⟩ := h.entity e x hx
  simpa [Arena.entity, hx, hy] using hkind hgroup

theorem isVisited_eq (hgroup : e ∉ group) :
    (t.store.arena.entity e).isVisited = (s.store.arena.entity e).isVisited := by
  simp only [Entity.isVisited, h.kind_eq he hgroup]

end

omit h in
theorem isSome_of_type (he : (s.store.arena.entity e).type.isSome) : (s.store.arena.entity? e).isSome := by
  cases hx : s.store.arena.entity? e with
  | none => simp [Arena.entity, hx, Entity.blank] at he
  | some x => rfl

omit h in
theorem isSome_of_visited (he : (s.store.arena.entity e).isVisited) : (s.store.arena.entity? e).isSome := by
  cases hx : s.store.arena.entity? e with
  | none => simp [Arena.entity, hx, Entity.blank, Entity.isVisited] at he
  | some x => rfl

theorem isSome_type (he : (s.store.arena.entity e).type.isSome) : (t.store.arena.entity e).type.isSome := by
  rwa [h.type_eq (isSome_of_type he)]

theorem isVisited (he : (s.store.arena.entity e).isVisited) : (t.store.arena.entity e).isVisited := by
  by_cases hgroup : e ∈ group
  · exact h.visited e hgroup
  · rwa [h.isVisited_eq (isSome_of_visited he) hgroup]

end Pass.Visits

namespace Pass.Journaled

variable {late : List EntityId} {s t : Pass} {e : EntityId} {d : Declaration}

/-- A group of variables may be visited and read, if none of them was visited before. -/
theorem read (h : s.Journaled late) {group : List EntityId} (ht : s.Visits group t)
    (hnew : ∀ v ∈ group, ¬ (s.store.arena.entity v).isVisited) (hslab : ∀ v ∈ group, v.slab = s.store.current.id)
    (hlate : ∀ e ∈ late, e ∈ group)
    (hgroup : ∀ p ∈ s.decls, ∀ v ∈ group, v ∈ p.1 :: p.2.variables → p.2.mark p.1 = .read group) :
    Journaled [] { t with journal := .read group :: t.journal } := by
  have hactive : Milestone.active (.read group :: t.journal) = s.active := by rw [ht.journal]; rfl
  obtain ⟨hdecls, hjournal⟩ := And.intro ht.decls ht.journal
  refine ⟨fun e => ?_, fun j hj => ?_, fun e he => ?_, fun v => ?_, fun m hm v hv => ?_, fun m hm v hv => ?_,
    fun p hp e he => ?_, fun p hp q hq => ?_, fun p hp _ hsome => ?_, fun p hp v hv hvisited => ?_⟩ <;> dsimp only at *
  · rw [List.count_cons_of_ne (by simp), hjournal]
    exact h.once e
  · rw [hjournal] at hj
    rcases List.suffix_cons_iff.mp hj with rfl | hj
    · exact h.nested s.journal (List.suffix_refl _)
    · exact h.nested j hj
  · rw [hjournal] at he
    obtain ⟨hkey, hopen⟩ := h.entered e ((List.mem_cons.mp he).resolve_left (by simp))
    refine ⟨hdecls ▸ hkey, hopen.imp ht.isSome_type fun hmem => ?_⟩
    rwa [active, hactive]
  · rw [hjournal]
    by_cases hv : v ∈ group
    · -- It was not visited, so it was not read.
      have hzero : s.journal.countP (Milestone.reads v) = 0 :=
        List.countP_eq_zero.mpr fun m hm hreads => hnew v hv (h.visited m hm v hreads)
      rw [List.countP_cons, hzero]
      split <;> simp
    · rw [List.countP_cons_of_neg (by simpa [Milestone.reads] using hv)]
      exact h.readOnce v
  · rw [hjournal] at hm
    rcases List.mem_cons.mp hm with rfl | hm
    · exact ht.visited v (by simpa [Milestone.reads] using hv)
    · exact ht.isVisited (h.visited m hm v hv)
  · rw [hjournal] at hm
    rw [ht.id]
    rcases List.mem_cons.mp hm with rfl | hm
    · exact hslab v (by simpa [Milestone.reads] using hv)
    · exact h.slab m hm v hv
  · exact ht.isSome (h.present p (hdecls ▸ hp) e he)
  · exact h.groups p (hdecls ▸ hp) q (hdecls ▸ hq)
  · rw [hdecls] at hp
    rw [hjournal] at hsome ⊢
    by_cases hmem : p.1 ∈ group
    · rw [hgroup p hp p.1 hmem List.mem_cons_self]
      exact List.mem_cons_self
    · refine List.mem_cons_of_mem _ (h.told p hp (fun hp => hmem (hlate p.1 hp))
        (hsome.imp (fun hsome => ?_) fun he => ?_))
      · rwa [← ht.type_eq (h.present p hp p.1 List.mem_cons_self)]
      · exact (List.mem_cons.mp he).resolve_left (by simp)
  · rw [hdecls] at hp
    rw [hjournal]
    have hpv := List.mem_cons_of_mem p.1 hv
    by_cases hmem : v ∈ group
    · rw [← Declaration.mark_of_mem hv p.1, hgroup p hp v hmem hpv]
      exact List.mem_cons_self
    · refine List.mem_cons_of_mem _ (h.toldVisited p hp v hv ?_)
      rwa [← ht.isVisited_eq (h.present p hp v hpv) hmem]

/-- Nothing is to be written when nothing is visited. -/
theorem still (h : s.Journaled late) (ht : s.Visits [] t) : t.Journaled late := by
  obtain ⟨hdecls, hjournal⟩ := And.intro ht.decls ht.journal
  refine ⟨hjournal ▸ h.once, hjournal ▸ h.nested, fun e he => ?_, hjournal ▸ h.readOnce, fun m hm v hv => ?_,
    fun m hm v hv => ?_, fun p hp e he => ?_, fun p hp q hq => ?_, fun p hp hlate hsome => ?_,
    fun p hp v hv hvisited => ?_⟩
  · rw [hjournal] at he
    obtain ⟨hkey, hopen⟩ := h.entered e he
    refine ⟨hdecls ▸ hkey, hopen.imp ht.isSome_type fun hmem => ?_⟩
    rwa [active, hjournal]
  · exact ht.isVisited (h.visited m (hjournal ▸ hm) v hv)
  · exact (h.slab m (hjournal ▸ hm) v hv).trans ht.id.symm
  · exact ht.isSome (h.present p (hdecls ▸ hp) e he)
  · exact h.groups p (hdecls ▸ hp) q (hdecls ▸ hq)
  · rw [hdecls] at hp
    rw [hjournal] at hsome ⊢
    rw [ht.type_eq (h.present p hp p.1 List.mem_cons_self)] at hsome
    exact h.told p hp hlate hsome
  · rw [hdecls] at hp
    rw [hjournal]
    refine h.toldVisited p hp v hv ?_
    rwa [← ht.isVisited_eq (h.present p hp v (List.mem_cons_of_mem _ hv)) (by simp)]

/-- An entity may be settled once the journal tells of it. -/
theorem settle (h : s.Journaled []) (htold : s.Told e) {f : Entity → Entity} (hf : ∀ x, Entity.Settles x (f x)) :
    Journaled [] { s with store := s.store.modifyEntity e f } := by
  have hg : s.Grows { s with store := s.store.modifyEntity e f } := Settles.settle s e f trivial hf
  have hother {e' : EntityId} (he : e' ≠ e) :
      (s.store.modifyEntity e f).arena.entity e' = s.store.arena.entity e' := by
    rw [Arena.entity, Store.entity?_modifyEntity, if_neg fun h => he h.2, Arena.entity]
  have hvisited {v : EntityId} (hv : (s.store.arena.entity v).isVisited) :
      ((s.store.modifyEntity e f).arena.entity v).isVisited := by
    rw [Arena.entity, Store.entity?_modifyEntity]
    split
    · obtain ⟨x, hx⟩ := Option.isSome_iff_exists.mp (Visits.isSome_of_visited hv)
      rw [Arena.entity, hx] at hv
      simpa [hx] using (hf x).visited hv
    · exact hv
  refine ⟨h.once, h.nested, fun e' he' => ?_, h.readOnce, fun m hm v hv => hvisited (h.visited m hm v hv),
    fun m hm v hv => (h.slab m hm v hv).trans hg.store.id.symm,
    fun p hp e' he' => hg.isSome_entity (h.present p hp e' he'), h.groups, fun p hp _ hsome => ?_,
    fun p hp v hv hvisited => ?_⟩
  · exact (h.entered e' he').imp_right (.imp_left hg.isSome_type)
  · by_cases he : p.1 = e
    · exact htold p hp (he ▸ List.mem_cons_self)
    · refine h.told p hp (by simp) (hsome.imp_left fun hsome => ?_)
      rwa [← hother he]
  · by_cases he : v = e
    · rw [← Declaration.mark_of_mem hv p.1]
      exact htold p hp (he ▸ List.mem_cons_of_mem _ hv)
    · refine h.toldVisited p hp v hv ?_
      rwa [← hother he]

end Pass.Journaled

/-! ## Runs that write nothing down -/

/-- A pass went on without declarations, milestones and changes of entities that were there. -/
structure Rests (s t : Pass) : Prop extends Pass.Visits [] s t where
  grows : s.Grows t

namespace Rests

variable {s t u : Pass}

theorem trans (h : Rests s t) (h' : Rests t u) : Rests s u where
  id := h'.id.trans h.id
  decls := h'.decls.trans h.decls
  journal := h'.journal.trans h.journal
  entity e x hx := by
    obtain ⟨y, hy, htype, hvisited⟩ := h.entity e x hx
    obtain ⟨z, hz, htype', hvisited'⟩ := h'.entity e y hy
    exact ⟨z, hz, htype'.trans htype, fun he => (hvisited' he).trans (hvisited he)⟩
  visited := by simp
  grows := h.grows.trans h'.grows

theorem of_store_eq (hg : s.Grows t) (h : t.store = s.store) (hd : t.decls = s.decls) (hj : t.journal = s.journal) :
    Rests s t := ⟨⟨hg.store.id, hd, hj, fun e x hx => ⟨x, h ▸ hx, rfl, fun _ => rfl⟩, by simp⟩, hg⟩

/-- No entity was changed in its kind or its type. -/
theorem of_spares (hg : s.Grows t) (h : s.store.arena.Spares (fun _ _ => True) t.store.arena) (hd : t.decls = s.decls)
    (hj : t.journal = s.journal) : Rests s t where
  id := hg.store.id
  decls := hd
  journal := hj
  entity e x hx := by
    obtain ⟨y, hy, -⟩ := hg.store.toExtends.entities e x hx
    obtain ⟨x', hx', hkind, htype⟩ := h e y hy trivial
    obtain rfl : x' = x := Option.some.inj (hx'.symm.trans hx)
    exact ⟨y, hy, htype.symm, fun _ => hkind.symm⟩
  visited := by simp
  grows := hg

theorem newEntity (s : Pass) (x : Entity) : Rests s { s with store := (s.store.newEntity x).2 } where
  id := rfl
  decls := rfl
  journal := rfl
  entity e y hy := by
    refine ⟨y, ?_, rfl, fun _ => rfl⟩
    rw [Store.entity?_newEntity, if_neg ?_]
    · exact hy
    · rintro rfl
      simp [s.store.entity?_fresh] at hy
  visited := by simp
  grows := .of_store (.newEntity s.store x)

theorem newType (s : Pass) (τ : Ty) : Rests s { s with store := (s.store.newType τ).2 } :=
  of_spares (.of_store (.newType s.store τ)) (.of_eq (Store.entity?_congr rfl rfl rfl)) rfl rfl

instance : ReadsFiles Rests where
  refl s := of_store_eq (.refl s) rfl rfl rfl
  trans := trans
  report s d hd hk := of_store_eq (Reports.report s d hd hk) rfl rfl rfl
  refer s id e := of_store_eq (Remarks.refer s id e) rfl rfl rfl
  define s id e := of_store_eq (Remarks.define s id e) rfl rfl rfl
  markUsed s e := of_spares (Remarks.markUsed s e) (s.store.spares_markUsed e) rfl rfl
  openScope s parent kind := of_spares (Supplies.openScope s parent kind) (s.store.spares_openScope parent kind) rfl rfl
  noteScope s id scope := of_store_eq (Supplies.noteScope s id scope) rfl rfl rfl
  bind s scope e := of_spares (Binds.bind s scope e) (s.store.spares_bind scope e) rfl rfl
  newEntity s x _ := newEntity s x
  newPointer s _ := newType s _
  newTuple s _ := newType s _
  newProc s _ _ := newType s _
  openFile s files := of_store_eq (ReadsFiles.openFile s files) rfl rfl rfl
  newImport s _ _ _ := newEntity s _
  addImport s e := of_store_eq (ReadsFiles.addImport s e) rfl rfl rfl
  warn s d hd := of_store_eq (ReadsFiles.warn s d hd) rfl rfl rfl

instance : Observes Rests where
  annotate s id note := of_store_eq (Observes.annotate s id note) rfl rfl rfl

end Rests

/-! ## Runs that check declarations -/

/-- A pass went on with the same declarations, and wrote down milestones. -/
structure Advances (s t : Pass) : Prop where
  grows : s.Grows t
  decls : t.decls = s.decls
  journal : s.journal <:+ t.journal

namespace Advances

variable {s t u : Pass}

theorem trans (h : Advances s t) (h' : Advances t u) : Advances s u :=
  ⟨h.grows.trans h'.grows, h'.decls.trans h.decls, h.journal.trans h'.journal⟩

theorem of_eq (hg : s.Grows t) (hd : t.decls = s.decls) (hj : t.journal = s.journal) : Advances s t :=
  ⟨hg, hd, hj ▸ List.suffix_refl _⟩

theorem of_rests (h : Rests s t) : Advances s t := of_eq h.grows h.decls h.journal

instance : Observes Advances := .of_idle (fun h _ _ => of_rests h) trans

instance : ReadsFiles Advances := .of_idle (fun h _ _ => of_rests h) trans

/-- What is allocated before a run is filled in after it. -/
theorem fill {τ : Ty} (h : Advances { s with store := (s.store.newType τ).2 } u) (f : Ty → Ty) :
    Advances s { u with store := u.store.modifyType (s.store.newType τ).1 f } :=
  ⟨⟨h.grows.store.fill f, h.grows.decls, h.grows.notes⟩, h.decls, h.journal⟩

instance : Demands Advances where
  newType s τ _ _ := of_rests (.newType s τ)
  fillEnum _ _ _ _ _ h := h.fill _
  settle s e f he hf := of_eq (Settles.settle s e f he hf) rfl rfl
  claimSymbol s p := of_eq (Settles.claimSymbol s p) rfl rfl
  stopNamed s _ _ _ _ h := (of_rests (.newType s _)).trans h
  fillNamed _ _ _ _ _ h := h.fill _
  record s m := ⟨Records.record s m, rfl, List.suffix_cons ..⟩
  claimLink s p := of_eq (Demands.claimLink s p) rfl rfl
  enqueue s b := of_eq (Demands.enqueue s b) rfl rfl

instance : OpensVariables Advances where
  newVariable s token ident := of_eq (OpensVariables.newVariable s token ident) rfl rfl

theorem declared (h : Advances s t) (hs : s.Declared) : t.Declared := hs.grows h.grows h.decls

end Advances

/-- The journal keeps to the state, given that the pending declarations are among those that are kept, and that the
journal tells of the entities in `own`. -/
structure Recounts (pending : List (EntityId × Declaration)) (own : List EntityId) (s t : Pass) : Prop extends
    Advances s t where
  keeps : s.Declared → pending ⊆ s.decls → (∀ e ∈ own, s.Told e) → s.Journaled [] → t.Journaled []

namespace Recounts

variable {pending : Pending} {own : List EntityId} {s t u : Pass}

theorem trans (h : Recounts pending own s t) (h' : Recounts pending own t u) : Recounts pending own s u where
  toAdvances := h.toAdvances.trans h'.toAdvances
  keeps hs hp ho hj := h'.keeps (h.declared hs) (h.decls ▸ hp) (fun e he => (ho e he).later h.decls h.journal)
    (h.keeps hs hp ho hj)

theorem of_rests (h : Rests s t) : Recounts pending own s t :=
  ⟨.of_rests h, fun _ _ _ hj => hj.still h.toVisits⟩

theorem owning (h : Recounts pending [] s t) : Recounts pending own s t :=
  ⟨h.toAdvances, fun hs hp _ => h.keeps hs hp (by simp)⟩

instance : Observes (Recounts pending own) := .of_idle (fun h _ _ => of_rests h) trans

instance : ReadsFiles (Recounts pending own) := .of_idle (fun h _ _ => of_rests h) trans

/-- What is allocated before a run is filled in after it. -/
theorem fill {τ : Ty} (h : Recounts pending own { s with store := (s.store.newType τ).2 } u) (f : Ty → Ty) :
    Recounts pending own s { u with store := u.store.modifyType (s.store.newType τ).1 f } where
  toAdvances := h.toAdvances.fill f
  keeps hs hp ho hj := by
    have hnew : Rests s { s with store := (s.store.newType τ).2 } := .newType s τ
    have hu := h.keeps (hs.grows hnew.grows rfl) hp ho (hj.still hnew.toVisits)
    refine hu.still ⟨u.store.id_modifyType _ f, rfl, rfl, fun e x hx => ⟨x, ?_, rfl, fun _ => rfl⟩, by simp⟩
    rwa [Store.entity?_modifyType]

instance : NamesTypes (Recounts pending own) (· ∈ own) where
  newType s τ _ _ := of_rests (.newType s τ)
  fillEnum _ _ _ _ _ h := h.fill _
  settle s e f he hf := ⟨Settles.settle s e f trivial hf, fun _ _ ho hj => hj.settle (ho e he) hf⟩
  claimSymbol s p := of_rests (.of_store_eq (Settles.claimSymbol s p) rfl rfl rfl)
  stopNamed s _ _ _ _ h := (of_rests (.newType s _)).trans h
  fillNamed _ _ _ _ _ h := h.fill _

end Recounts

namespace Check

/-! ## Variables -/

theorem visits_one {s : Pass} (hv : s.store.Owns v "variable") : s.Visits [v]
    { s with store := s.store.modifyEntity v fun x =>
        match x.kind with
        | .var i => { x with kind := .var { i with visited := true } }
        | _ => x } where
  id := s.store.id_modifyEntity v _
  decls := rfl
  journal := rfl
  entity e x hx := by
    dsimp only
    rw [Store.entity?_modifyEntity]
    split
    case isTrue he =>
      refine ⟨_, by rw [hx]; rfl, ?_, by simp [he.2]⟩
      dsimp only
      split <;> rfl
    case isFalse => exact ⟨x, hx, rfl, fun _ => rfl⟩
  visited e he := by
    obtain rfl := List.mem_singleton.mp he
    obtain ⟨x, hx, hsort⟩ := hv.entity
    obtain ⟨i, hkind⟩ : ∃ i, x.kind = .var i := by cases hkind : x.kind <;> simp_all [EntityKind.name]
    rw [Arena.entity, Store.entity?_modifyEntity, if_pos ⟨hv.slab, rfl⟩, hx]
    simp [hkind, Entity.isVisited]

theorem exists_visits {group : List EntityId} {s : Pass} (hown : ∀ v ∈ group, s.store.Owns v "variable") :
    ∃ t, visit group s = .ok () t ∧ s.Grows t ∧ s.Visits group t := by
  induction group generalizing s with
  | nil => exact ⟨s, rfl, .refl s, (Reports.refl (R := Rests) s).toVisits⟩
  | cons v rest ih =>
    rw [List.forall_mem_cons] at hown
    have hfirst := visits_one hown.1
    have hgrows := (moves_visit (R := Pass.Grows) fun e (_ : e ∈ [v]) => trivial).along s
    obtain ⟨t, hrun, hgrows', hrest⟩ := ih fun w hw => (hown.2 w hw).grows hgrows.store
    refine ⟨t, hrun, hgrows.trans hgrows', hrest.id.trans hfirst.id, hrest.decls.trans hfirst.decls,
      hrest.journal.trans hfirst.journal, fun e x hx => ?_,
      List.forall_mem_cons.mpr ⟨hrest.isVisited (hfirst.visited v (by simp)), hrest.visited⟩⟩
    obtain ⟨y, hy, htype, hsame⟩ := hfirst.entity e x hx
    obtain ⟨z, hz, htype', hsame'⟩ := hrest.entity e y hy
    refine ⟨z, hz, htype'.trans htype, fun he => ?_⟩
    rw [List.mem_cons, not_or] at he
    exact (hsame' he.2).trans (hsame (by simpa using he.1))

section

variable {resolve : Resolver} {pending : Pending}
  (hr : ∀ ctx e, Moves (Recounts pending []) (resolve ctx e)) (ctx : Context)

include hr

omit ctx in
theorem recounts_expr (own : List EntityId) (ctx : Context) (reading : Reading) (e : Expr) :
    Moves (Recounts pending own) (expr resolve ctx reading e) :=
  moves_expr (fun ctx e => (hr ctx e).mono fun _ _ h => h.owning) ctx reading e

theorem recounts_noVariables (type : Option Expr) (values : List Expr) :
    Moves (Recounts pending []) (varDecl resolve ctx [] type values) := by
  have hx := recounts_expr hr [] ctx
  refine moves_bind moves_arena fun a => ?_
  cases type <;> grind

/-- Variables are read when none of them was visited, and the journal tells of it before they get their types. -/
theorem journaled_varDecl {entities late : List EntityId} (type : Option Expr) (values : List Expr) {s : Pass}
    (hs : s.Declared) (hp : pending ⊆ s.decls) (hj : s.Journaled late) (hlate : ∀ e ∈ late, e ∈ entities)
    (hown : ∀ v ∈ entities, s.store.Owns v "variable")
    (hgroup : ∀ p ∈ s.decls, ∀ v ∈ entities, v ∈ p.1 :: p.2.variables → p.2.mark p.1 = .read entities)
    (hvisited : ∀ v ∈ entities, (s.store.arena.entity v).isVisited → .read entities ∈ s.journal) :
    ((varDecl resolve ctx entities type values).after s).Journaled [] := by
  have hx := recounts_expr hr entities ctx
  have htold {t : Pass} (hd : t.decls = s.decls) (hread : .read entities ∈ t.journal) : ∀ e ∈ entities, t.Told e := by
    intro e he p hp hep
    rw [hgroup p (hd ▸ hp) e he hep]
    exact hread
  cases entities with
  | nil =>
    obtain rfl : late = [] := List.eq_nil_iff_forall_not_mem.mpr fun e he => by simpa using hlate e he
    exact ((recounts_noVariables hr ctx type values).along s).keeps hs hp (by simp) hj
  | cons first rest =>
    have harena : arena s = .ok s.store.arena s := rfl
    unfold varDecl
    rw [after_bind harena]
    dsimp only
    split
    case isTrue hany =>
      -- The variables are being read, or were read before.
      obtain ⟨v, hv, hvisit⟩ := List.any_eq_true.mp hany
      have htold := htold rfl (hvisited v hv hvisit)
      have hcycle : Moves (Recounts pending (first :: rest)) (do
          reportCycle first
          setTypes .invalid (first :: rest)) :=
        moves_bind moves_reportCycle fun _ => moves_setTypes .invalid fun _ h => h
      exact (hcycle.along s).keeps hs hp htold (hj.close fun e he => htold e (hlate e he))
    case isFalse hany =>
      have hnew : ∀ v ∈ first :: rest, ¬ (s.store.arena.entity v).isVisited :=
        fun v hv hvisit => hany (List.any_eq_true.mpr ⟨v, hv, hvisit⟩)
      obtain ⟨t, hrun, hgrows, hvisits⟩ := exists_visits hown
      have hrecord : record (.read (first :: rest)) t = .ok ()
        { t with journal := .read (first :: rest) :: t.journal } := rfl
      have hreads := moves_readVariables hx (fun _ h => h) (s.store.arena.entity first).token type values
      rw [after_bind hrun, after_bind hrecord]
      exact (hreads.along _).keeps (hs.grows (hgrows.trans (Records.record t _)) hvisits.decls) (hvisits.decls ▸ hp)
        (htold hvisits.decls List.mem_cons_self) (hj.read hvisits hnew (fun v hv => (hown v hv).slab) hlate hgroup)

/-! ## Declarations -/

/-- The journal tells of a declaration by the time that its entity gets a type. -/
theorem journaled_declaration {s : Pass} (hs : s.Declared) (hp : pending ⊆ s.decls) (hmem : (e, d) ∈ s.decls)
    (hj : s.Journaled [e]) (henter : .enter e ∈ s.journal) : ((declaration resolve ctx e d).after s).Journaled [] := by
  have hsuits := hs _ hmem
  -- Everything but variables is told of when its check begins.
  have hmarked {x : Check Unit} (hsort : d.sort ≠ "variable") (hx : Moves (Recounts pending [e]) x) :
      (x.after s).Journaled [] := by
    have htold : ∀ e' ∈ [e], s.Told e' := by
      intro e' he'
      obtain rfl := List.mem_singleton.mp he'
      exact hj.told_of_mark hs hmem (Declaration.mark_of_sort hsort e' ▸ henter)
    exact (hx.along s).keeps hs hp htold (hj.close htold)
  have hx := recounts_expr hr [e]
  have hown : e ∈ [e] := List.mem_singleton_self e
  cases d with
  | constant scope type value => exact hmarked (by simp [Declaration.sort]) (moves_constant (hx ctx) hown)
  | type scope type =>
    exact hmarked (by simp [Declaration.sort]) (moves_namedType (fun reading => hx _ reading type) hown)
  | proc scope d =>
    refine hmarked (by simp [Declaration.sort]) (moves_procedure (fun scope => ?_) hown (fun _ _ _ s => ?_)
      fun _ _ _ _ s => ?_)
    · exact moves_anySignature (fun ctx e => (hr ctx e).mono fun _ _ h => h.owning)
    · exact .of_rests (.of_store_eq (Demands.claimLink s _) rfl rfl rfl)
    · exact .of_rests (.of_store_eq (Demands.enqueue s _) rfl rfl rfl)
  | vars scope entities type values =>
    refine journaled_varDecl hr ctx type values hs hp hj ?_ hsuits.vars ?_ fun v hv => hj.toldVisited _ hmem v hv
    · simpa [Declaration.variables] using hsuits.among rfl
    · exact fun p hp v hv hpv => hj.mark_of_group hmem hv hp hpv

end

/-! ## Demands -/

theorem moves_recounts {α : Type} {pending : Pending} {x : Check α} (hx : Moves Advances x)
    (h : ∀ {s}, s.Declared → pending ⊆ s.decls → s.Journaled [] → (x.after s).Journaled []) :
    Moves (Recounts pending []) x := ⟨fun s => ⟨hx.along s, fun hs hp _ => h hs hp⟩, hx.traced⟩

theorem journaled_demandFrom {pending : Pending} (ctx : Context) (e : EntityId) {s : Pass}
    (hs : s.Declared) (hp : pending ⊆ s.decls) (hj : s.Journaled []) :
    ((demandFrom pending ctx e).after s).Journaled [] := by
  have hentity : entity e s = .ok (s.store.arena.entity e) s := rfl
  have hget : (get : Check Pass) s = .ok s s := rfl
  unfold demandFrom
  rw [after_bind hentity]
  split
  case isTrue => exact hj
  case isFalse htype =>
    rw [after_bind hget]
    split
    case isTrue hactive =>
      have henter : .enter e ∈ s.journal := Milestone.mem_of_mem_active (List.contains_iff_mem.mp hactive)
      have hcycle : Moves (Recounts pending [e]) (do
          reportCycle e
          setType e .invalid) := moves_bind moves_reportCycle fun _ =>
            moves_setType (List.mem_singleton_self e) .invalid
      refine (hcycle.along s).keeps hs hp ?_ hj
      simpa using hj.told_of_enter hs henter
    case isFalse hactive =>
      split
      case h_2 => exact hj
      case h_1 d rest taken =>
        obtain ⟨hmem, hrest⟩ := subset_of_take? taken
        have hlt := length_lt_of_take? taken
        have hr (ctx : Context) (e : EntityId) : Moves (Recounts rest []) (demandFrom rest ctx e) :=
          moves_recounts (moves_demandFrom rest ctx e) fun hs hp hj => journaled_demandFrom ctx e hs hp hj
        have hnone : (s.store.arena.entity e).type = none := by simpa using htype
        have hentered := hj.enter (hp hmem) hnone fun he => hactive (List.contains_iff_mem.mpr he)
        have hrecord : record (.enter e) s = .ok () { s with journal := .enter e :: s.journal } := rfl
        have hs₁ : Pass.Declared { s with journal := .enter e :: s.journal } := hs.grows (Records.record s _) rfl
        have hchecked :=
          journaled_declaration hr (ctx.within d.scope) hs₁ (List.Subset.trans hrest hp) (hp hmem) hentered
          List.mem_cons_self
        rw [after_bind hrecord]
        cases hrun : declaration (demandFrom rest)
          (ctx.within d.scope) e d { s with journal := .enter e :: s.journal } with
        | error stop t =>
          rw [after_bind_of_error hrun]
          rwa [after_of_error hrun] at hchecked
        | ok a t =>
          rw [after_of_ok hrun] at hchecked
          have hsuits := hs₁ (e, d) (hp hmem)
          have htypes := types_declaration (moves_demandFrom rest) (ctx.within d.scope) hsuits.among
          rw [after_bind hrun]
          exact hchecked.leave (htypes.typed hrun hsuits.own)
termination_by pending.length

/-- Demands keep the journal to the state. -/
theorem recounts_demand (pending : Pending) (ctx : Context) (e : EntityId) :
    Moves (Recounts pending []) (demand ctx e) :=
  moves_recounts (moves_demand ctx e) fun hs _ hj => journaled_demandFrom ctx e hs (List.Subset.refl _) hj

end Check

end Statics
