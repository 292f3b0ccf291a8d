import Statics.Proofs.Growth
import Statics.Proofs.Run.Invariant

/-!
# Accepted programs

Checking a program is one pass over the file level and one job for each body that it queued, each in a slab of its own.
If the program is accepted, all of them completed without an error, and the slabs of the program are theirs.
-/

namespace Statics

variable {id n : Nat} {bs : List Body} {config : Config} {slabs : List Slab} {a : Arena} {passes : List Pass}

/-- A program was checked to its end, without an error. -/
structure Program.Accepted (p : Program) : Prop where
  complete : p.stop = none
  errors : p.collector.count = 0

instance (p : Program) : Decidable p.Accepted :=
  decidable_of_iff (p.stop = none ∧ p.collector.count = 0) ⟨fun h => ⟨h.1, h.2⟩, fun h => ⟨h.complete, h.errors⟩⟩

/-! ## Clean jobs -/

/-- A job in a slab of its own completes without an error, in a program that had none before. -/
def CleanJob (config : Config) (frozen : List Slab) (id : Nat) (b : Body) (s : Pass) : Prop :=
  ∃ links collector, collector.count = 0 ∧
    Check.Clean (Check.bodyAndNested config b) (.start ⟨.empty id, frozen⟩ links collector) () s

/-- Clean jobs for bodies, in slabs that are numbered from `id`. -/
inductive CleanJobs (config : Config) (frozen : List Slab) : Nat → List Body → List Pass → Prop where
  | nil {id : Nat} : CleanJobs config frozen id [] []
  | cons {id : Nat} {b : Body} {rest : List Body} {s : Pass} {passes : List Pass}
    (job : CleanJob config frozen id b s) (jobs : CleanJobs config frozen (id + 1) rest passes) :
    CleanJobs config frozen id (b :: rest) (s :: passes)

/-- What a pass hands back as a job. -/
def Pass.result (s : Pass) : JobResult := ⟨s.store.current, s.notes, none⟩

namespace Check

theorem outcome_eq_after (x : Check Unit) (s : Pass) : (x.outcome s).2 = x.after s := by
  unfold outcome after
  cases x s <;> rfl

end Check

/-! ## Programs -/

namespace Program

theorem stop_absorb (p : Program) (results : List JobResult) :
    (results.foldl absorb p).stop = none ↔ p.stop = none ∧ ∀ r ∈ results, r.stop = none := by
  induction results generalizing p with
  | nil => simp
  | cons r rest ih =>
    rw [List.foldl_cons, ih, List.forall_mem_cons]
    simp [absorb, and_assoc]

theorem arena_absorb (p : Program) (passes : List Pass) :
    ((passes.map Pass.result).foldl absorb p).arena =
      passes.foldl (fun a s => a.absorb s.store.current) p.arena := by
  induction passes generalizing p with
  | nil => rfl
  | cons s rest ih =>
    rw [List.map_cons, List.foldl_cons, ih]
    rfl

theorem notes_absorb (p : Program) (passes : List Pass) :
    ((passes.map Pass.result).foldl absorb p).notes = passes.foldl (fun a s => a.merge s.notes) p.notes := by
  induction passes generalizing p with
  | nil => rfl
  | cons s rest ih =>
    rw [List.map_cons, List.foldl_cons, ih]
    rfl

theorem collector_absorb (p : Program) (results : List JobResult) :
    (results.foldl absorb p).collector = p.collector := by
  induction results generalizing p with
  | nil => rfl
  | cons r rest ih =>
    rw [List.foldl_cons, ih]
    rfl

theorem count_warnUnused (p : Program) : p.warnUnused.collector.count = p.collector.count := by
  have hwarn (ds : List Diagnostic) (c : Collector) : (ds.foldl Collector.warn c).count = c.count := by
    induction ds generalizing c with
    | nil => rfl
    | cons d rest ih =>
      rw [List.foldl_cons, ih]
      rfl
  unfold warnUnused
  split
  · exact hwarn _ _
  · rfl

theorem arena_warnUnused (p : Program) : p.warnUnused.arena = p.arena := by
  unfold warnUnused
  split <;> rfl

theorem notes_warnUnused (p : Program) : p.warnUnused.notes = p.notes := by
  unfold warnUnused
  split <;> rfl

/-- The runs that a program is made of: the file level, which ends in `s`, and jobs, which end in `passes`. -/
structure Runs (config : Config) (files : List File) (s : Pass) (passes : List Pass) : Prop where
  fileLevel : Check.Clean (Check.fileLevel config files) (.start Universe.store [] (.empty config.errorCap)) () s
  jobs : CleanJobs config s.store.arena.slabs 1 s.queue passes
  arena : (checkFiles config files).arena = passes.foldl (fun a s => a.absorb s.store.current) s.store.arena
  notes : (checkFiles config files).notes = passes.foldl (fun a s => a.merge s.notes) s.notes

/-- The program that the jobs of a file level make. -/
def ofJobs (config : Config) (s : Pass) : Program :=
  let (results, shared) := runJobs config s.store.arena.slabs 1 s.queue ⟨s.links, s.collector⟩
  results.foldl absorb ⟨config, s.store.arena, s.notes, shared.collector, s.files, s.imports, none⟩

theorem checkFiles_eq (config : Config) (files : List File) :
    checkFiles config files =
      let (stop, s) := (Check.fileLevel config files).outcome (.start Universe.store [] (.empty config.errorCap))
      if stop.isSome then ⟨config, s.store.arena, s.notes, s.collector, s.files, s.imports, stop⟩
      else if (ofJobs config s).stop.isSome then ofJobs config s else (ofJobs config s).warnUnused := by
  unfold checkFiles checkFileLevel ofJobs
  dsimp only
  split
  · rfl
  case isFalse hstop =>
    rw [Option.not_isSome_iff_eq_none.mp hstop]

end Program

/-! ## Putting slabs together -/

/-- Two slabs are the same, except that entities are marked as used and scopes have more children. -/
structure Slab.Marks (s t : Slab) : Prop where
  id : t.id = s.id
  types : t.types = s.types
  entities : ∀ i : Nat, t.entities[i]? = s.entities[i]? ∨
    t.entities[i]? = s.entities[i]?.map fun x => { x with used := true }
  scopes : ∀ i : Nat, ∃ more, t.scopes[i]? = s.scopes[i]?.map fun x => { x with children := x.children ++ more }
  records : t.adopted = s.adopted ∧ t.touched = s.touched

namespace Slab.Marks

variable {s t u : Slab}

theorem refl (s : Slab) : s.Marks s := ⟨rfl, rfl, fun _ => .inl rfl, fun _ => ⟨[], by simp⟩, rfl, rfl⟩

theorem trans (h : s.Marks t) (h' : t.Marks u) : s.Marks u where
  id := h'.id.trans h.id
  types := h'.types.trans h.types
  entities i := by
    rcases h.entities i with hi | hi <;> rcases h'.entities i with hi' | hi' <;> rw [hi', hi]
    · exact .inl rfl
    · exact .inr rfl
    · exact .inr rfl
    · right
      rw [Option.map_map]
      rfl
  scopes i := by
    obtain ⟨more, hi⟩ := h.scopes i
    obtain ⟨more', hi'⟩ := h'.scopes i
    refine ⟨more ++ more', ?_⟩
    rw [hi', hi, Option.map_map]
    simp [Function.comp_def, List.append_assoc]
  records := ⟨h'.records.1.trans h.records.1, h'.records.2.trans h.records.2⟩

theorem adopt {index : Nat} {scope : Scope} (hscope : s.scopes[index]? = some scope) (child : ScopeId) :
    s.Marks { s with
      scopes := s.scopes.setIfInBounds index { scope with children := scope.children ++ [child] } } := by
  refine ⟨rfl, rfl, fun _ => .inl rfl, fun i => ?_, rfl, rfl⟩
  by_cases hi : index = i
  · exact ⟨[child], by grind⟩
  · exact ⟨[], by simp [hi]⟩

theorem touch {index : Nat} {x : Entity} (hx : s.entities[index]? = some x) :
    s.Marks { s with entities := s.entities.setIfInBounds index { x with used := true } } :=
  ⟨rfl, rfl, fun i => by grind, fun _ => ⟨[], by simp⟩, rfl, rfl⟩

end Slab.Marks

namespace Arena

variable {a b c : Arena}

/-- Two arenas have the same slabs, except for marks. -/
structure Marks (a b : Arena) : Prop where
  ids : b.slabs.map Slab.id = a.slabs.map Slab.id
  slabs : ∀ id, Option.Rel Slab.Marks (a.slab? id) (b.slab? id)

namespace Marks

theorem refl (a : Arena) : a.Marks a := by
  refine ⟨rfl, fun id => ?_⟩
  cases a.slab? id with
  | none => exact .none
  | some s => exact .some (.refl s)

theorem trans (h : a.Marks b) (h' : b.Marks c) : a.Marks c := by
  refine ⟨h'.ids.trans h.ids, fun id => ?_⟩
  have hab := h.slabs id
  have hbc := h'.slabs id
  generalize a.slab? id = x, b.slab? id = y, c.slab? id = z at hab hbc ⊢
  cases hab with
  | none => exact hbc
  | some hab =>
    cases hbc with
    | some hbc => exact .some (hab.trans hbc)

theorem types (h : a.Marks b) (t : TypeId) : b.type? t = a.type? t := by
  have hslab := h.slabs t.slab
  unfold type?
  generalize a.slab? t.slab = x, b.slab? t.slab = y at hslab ⊢
  cases hslab with
  | none => rfl
  | some hslab => simp [hslab.types]

theorem entities (h : a.Marks b) (e : EntityId) :
    b.entity? e = a.entity? e ∨ b.entity? e = (a.entity? e).map fun x => { x with used := true } := by
  have hslab := h.slabs e.slab
  unfold entity?
  generalize a.slab? e.slab = x, b.slab? e.slab = y at hslab ⊢
  cases hslab with
  | none => exact .inl rfl
  | some hslab => exact hslab.entities e.index

/-- A change of slabs one by one. -/
theorem of_map {f : Slab → Slab} (hf : ∀ s : Slab, s.Marks (f s)) : Marks ⟨slabs⟩ ⟨slabs.map f⟩ := by
  refine ⟨?_, fun id => ?_⟩
  · rw [List.map_map]
    exact List.map_congr_left fun s _ => (hf s).id
  · have hcomp : (fun s : Slab => s.id == id) ∘ f = fun s => s.id == id := funext fun s => by simp [(hf s).id]
    simp only [slab?, List.find?_map, hcomp]
    cases slabs.find? fun s => s.id == id with
    | none => exact .none
    | some s => exact .some (hf s)

theorem adopt (slabs : List Slab) (parent child : ScopeId) : Marks ⟨slabs⟩ ⟨Arena.adopt slabs parent child⟩ := by
  refine of_map fun s => ?_
  split
  · split
    case h_1 scope hscope => exact .adopt hscope child
    case h_2 => exact .refl s
  · exact .refl s

theorem touch (slabs : List Slab) (e : EntityId) : Marks ⟨slabs⟩ ⟨Arena.touch slabs e⟩ := by
  refine of_map fun s => ?_
  split
  · split
    case h_1 x hx => exact .touch hx
    case h_2 => exact .refl s
  · exact .refl s

theorem foldl {α : Type} {step : List Slab → α → List Slab} (hstep : ∀ slabs x, Marks ⟨slabs⟩ ⟨step slabs x⟩)
    (xs : List α) (slabs : List Slab) : Marks ⟨slabs⟩ ⟨xs.foldl step slabs⟩ := by
  induction xs generalizing slabs with
  | nil => exact refl _
  | cons x rest ih => exact (hstep slabs x).trans (ih _)

end Marks

/-- Absorbing a slab adds it, and marks what it recorded. -/
theorem marks_absorb (a : Arena) (s : Slab) :
    Marks ⟨a.slabs ++ [{ s with adopted := [], touched := [] }]⟩ (a.absorb s) :=
  (Marks.foldl (fun slabs link => .adopt slabs link.1 link.2) s.adopted _).trans
    (Marks.foldl .touch s.touched _)

theorem slab_lt_of_slab? {r : Slab} (hn : ∀ r ∈ a.slabs, r.id < n) (h : a.slab? id = some r) : id < n := by
  have hid := List.find?_some h
  have hlt := hn r (List.mem_of_find?_eq_some h)
  simp only [beq_iff_eq] at hid
  omega

theorem slab_lt_of_type? (hn : ∀ r ∈ a.slabs, r.id < n) {t : TypeId} (ht : (a.type? t).isSome) : t.slab < n := by
  cases hr : a.slab? t.slab with
  | none => simp [type?, hr] at ht
  | some r => exact slab_lt_of_slab? hn hr

theorem slab_lt_of_entity? (hn : ∀ r ∈ a.slabs, r.id < n) {e : EntityId} (he : (a.entity? e).isSome) : e.slab < n := by
  cases hr : a.slab? e.slab with
  | none => simp [entity?, hr] at he
  | some r => exact slab_lt_of_slab? hn hr

section

variable {s : Slab} (hs : ∀ r ∈ a.slabs, r.id < s.id)

include hs

theorem slab?_append (id : Nat) :
    Arena.slab? ⟨a.slabs ++ [s]⟩ id = if id = s.id then some s else a.slab? id := by
  have hlt : ∀ r, a.slab? id = some r → id < s.id := fun r hr => slab_lt_of_slab? hs hr
  rw [slab?, List.find?_append, ← slab?]
  cases hr : a.slab? id <;> grind

theorem type?_append (t : TypeId) :
    Arena.type? ⟨a.slabs ++ [s]⟩ t = if t.slab = s.id then s.types[t.index]? else a.type? t := by
  rw [type?, slab?_append hs]
  split <;> rfl

theorem entity?_append (e : EntityId) :
    Arena.entity? ⟨a.slabs ++ [s]⟩ e = if e.slab = s.id then s.entities[e.index]? else a.entity? e := by
  rw [entity?, slab?_append hs]
  split <;> rfl

theorem type?_absorb (t : TypeId) :
    (a.absorb s).type? t = if t.slab = s.id then s.types[t.index]? else a.type? t :=
  ((a.marks_absorb s).types t).trans (type?_append (s := { s with adopted := [], touched := [] }) hs t)

theorem entity?_absorb (e : EntityId) :
    (a.absorb s).entity? e = (if e.slab = s.id then s.entities[e.index]? else a.entity? e) ∨ (a.absorb s).entity? e =
      (if e.slab = s.id then s.entities[e.index]? else a.entity? e).map fun x => { x with used := true } :=
  entity?_append (s := { s with adopted := [], touched := [] }) hs e ▸ (a.marks_absorb s).entities e

/-- An entity is that of the slab or one from before, perhaps marked as used. -/
theorem exists_of_entity?_absorb {e : EntityId} {y : Entity} (hy : (a.absorb s).entity? e = some y) :
    ∃ x, (if e.slab = s.id then s.entities[e.index]? else a.entity? e) = some x ∧
    (y = x ∨ y = { x with used := true }) := by
  rcases entity?_absorb hs e with h | h <;> rw [h] at hy
  · exact ⟨y, hy, .inl rfl⟩
  · obtain ⟨x, hx, rfl⟩ := Option.map_eq_some_iff.mp hy
    exact ⟨x, hx, .inr rfl⟩

theorem lt_of_mem_absorb : ∀ r ∈ (a.absorb s).slabs, r.id < s.id + 1 := by
  intro r hr
  have hid : r.id ∈ (a.absorb s).slabs.map Slab.id := List.mem_map_of_mem hr
  rw [(a.marks_absorb s).ids, List.map_append, List.mem_append] at hid
  rcases hid with hid | hid
  · obtain ⟨q, hq, heq⟩ := List.mem_map.mp hid
    have := hs q hq
    omega
  · simp only [List.map_cons, List.map_nil, List.mem_singleton] at hid
    omega

end

/-- An arena has what some others have: all their types and entities, and no more. -/
structure Gathers (b : Arena) (arenas : List Arena) : Prop where
  toExtends : ∀ a ∈ arenas, a.Extends b
  types : ∀ {t}, (b.type? t).isSome → ∃ a ∈ arenas, (a.type? t).isSome
  entities : ∀ {e y}, b.entity? e = some y →
    ∃ a ∈ arenas, ∃ x, a.entity? e = some x ∧ (y = x ∨ y = { x with used := true })

theorem extends_absorb {s : Slab} (hs : ∀ r ∈ a.slabs, r.id < s.id) {b : Arena}
    (ht : ∀ {t τ}, b.type? t = some τ → t.slab = s.id ∧ s.types[t.index]? = some τ ∨ t.slab ≠ s.id ∧ a.type? t = some τ)
    (he : ∀ {e x}, b.entity? e = some x → e.slab = s.id ∧ s.entities[e.index]? = some x ∨ e.slab ≠ s.id ∧ ∃ y,
    a.entity? e = some y ∧ x.Keeps y) : b.Extends (a.absorb s) where
  types t τ hτ := by
    have := ht hτ
    grind [type?_absorb hs]
  entities e x hx := by
    have hmark (y : Entity) : y.Keeps { y with used := true } :=
      ⟨rfl, rfl, rfl, rfl, fun _ h => h, fun v h => ⟨v, h⟩⟩
    obtain ⟨y, hy, hxy⟩ : ∃ y, (if e.slab = s.id then s.entities[e.index]? else a.entity? e) = some y ∧ x.Keeps y := by
      have := he hx
      grind
    rcases entity?_absorb hs e with h | h
    · exact ⟨y, h.trans hy, hxy⟩
    · exact ⟨_, by rw [h, hy, Option.map_some], hxy.trans (hmark y)⟩

theorem extends_absorb_self (a : Arena) {s : Slab} (hs : ∀ r ∈ a.slabs, r.id < s.id) : a.Extends (a.absorb s) := by
  refine extends_absorb hs (fun {t τ} ht => .inr ⟨?_, ht⟩) fun {e x} hx => .inr ⟨?_, x, hx, .refl x⟩
  · exact Nat.ne_of_lt (slab_lt_of_type? hs (by simp [ht]))
  · exact Nat.ne_of_lt (slab_lt_of_entity? hs (by simp [hx]))

/-- The slab of a store is put next to slabs that extend those the store has below it. -/
theorem Gathers.absorb {arenas : List Arena} (h : a.Gathers arenas) {s : Store}
    (hs : ∀ r ∈ a.slabs, r.id < s.current.id) (hbelow : s.below.Extends a) :
    (a.absorb s.current).Gathers (arenas ++ [s.arena]) where
  toExtends b hb := by
    have hold := a.extends_absorb_self hs
    rcases List.mem_append.mp hb with hb | hb
    · exact (h.toExtends b hb).trans hold
    · obtain rfl := List.mem_singleton.mp hb
      have htypes := hbelow.types
      have hentities := hbelow.entities
      exact extends_absorb hs (by grind [Store.type?_arena]) (by grind [Store.entity?_arena])
  types {t} ht := by
    rw [type?_absorb hs] at ht
    split at ht
    case isTrue hslab =>
      exact ⟨s.arena, by simp, by rwa [Store.type?_arena, if_pos hslab.symm]⟩
    case isFalse hslab =>
      obtain ⟨b, hb, hsome⟩ := h.types ht
      exact ⟨b, List.mem_append_left _ hb, hsome⟩
  entities {e y} hy := by
    obtain ⟨x, hx, hxy⟩ := exists_of_entity?_absorb hs hy
    split at hx
    case isTrue hslab =>
      exact ⟨s.arena, by simp, x, by rwa [Store.entity?_arena, if_pos hslab.symm], hxy⟩
    case isFalse hslab =>
      obtain ⟨b, hb, z, hz, hxz⟩ := h.entities hx
      refine ⟨b, List.mem_append_left _ hb, z, hz, ?_⟩
      rcases hxy with rfl | rfl <;> rcases hxz with rfl | rfl <;> simp

end Arena

/-! ## The arena of an accepted program -/

theorem CleanJob.store {frozen : List Slab} {b : Body} {s : Pass} (h : CleanJob config frozen id b s) :
    s.store.current.id = id ∧ s.store.frozen = frozen := by
  obtain ⟨links, collector, -, hclean⟩ := h
  have hgrows : Pass.Grows _ s := (Check.moves_bodyAndNested config b).ok hclean.run
  exact ⟨hgrows.store.id, hgrows.store.frozen⟩

/-- What every clean job ends with holds of all of them. -/
theorem CleanJobs.forall {frozen : List Slab} {P : Pass → Prop} (h : CleanJobs config frozen id bs passes)
    (hid : ∀ slab ∈ frozen, slab.id < id) (hP : ∀ id b s, (∀ slab ∈ frozen, slab.id < id) → b ∈ bs →
      CleanJob config frozen id b s → P s) : ∀ s ∈ passes, P s := by
  induction h with
  | nil => simp
  | cons job _ ih =>
    refine List.forall_mem_cons.mpr ⟨hP _ _ _ hid List.mem_cons_self job,
      ih (fun slab hslab => ?_) fun id b s hid hb => ?_⟩
    · exact Nat.lt_succ_of_lt (hid slab hslab)
    · exact hP id b s hid (List.mem_cons_of_mem _ hb)

/-- Passes in slabs that are numbered from `id`, all on top of the same others. -/
inductive Pass.Numbered (frozen : List Slab) : Nat → List Pass → Prop where
  | nil {id : Nat} : Numbered frozen id []
  | cons {id : Nat} {s : Pass} {passes : List Pass} (store : s.store.current.id = id ∧ s.store.frozen = frozen)
    (rest : Numbered frozen (id + 1) passes) : Numbered frozen id (s :: passes)

theorem CleanJobs.numbered {frozen : List Slab} (h : CleanJobs config frozen id bs passes) :
    Pass.Numbered frozen id passes := by
  induction h with
  | nil => exact .nil
  | cons job _ ih => exact .cons job.store ih

theorem Pass.Numbered.frozen {frozen : List Slab} (h : Numbered frozen id passes) :
    ∀ s ∈ passes, s.store.frozen = frozen := by
  induction h with
  | nil => simp
  | cons hstore _ ih => exact List.forall_mem_cons.mpr ⟨hstore.2, ih⟩

theorem Pass.Numbered.gathers {frozen : List Slab} (h : Numbered frozen id passes) {arenas : List Arena}
    (ha : a.Gathers arenas) (hid : ∀ r ∈ a.slabs, r.id < id) (hfrozen : Arena.Extends ⟨frozen⟩ a) :
    (passes.foldl (fun a s => a.absorb s.store.current) a).Gathers (arenas ++ passes.map fun s => s.store.arena) := by
  induction h generalizing a arenas with
  | nil => simpa using ha
  | @cons id s passes hstore _ ih =>
    obtain ⟨hsid, hsfrozen⟩ := hstore
    rw [← hsid] at hid
    have hbelow : s.store.below.Extends a := by
      unfold Store.below
      rwa [hsfrozen]
    have hgathers := ha.absorb hid hbelow
    have hrest := ih hgathers (hsid ▸ Arena.lt_of_mem_absorb hid) (hfrozen.trans (a.extends_absorb_self hid))
    simpa using hrest

theorem Arena.gathers_self (a : Arena) : a.Gathers [a] where
  toExtends b hb := by
    obtain rfl := List.mem_singleton.mp hb
    exact ⟨fun _ _ h => h, fun _ x h => ⟨x, h, .refl x⟩⟩
  types ht := ⟨a, by simp, ht⟩
  entities {e y} hy := ⟨a, by simp, y, hy, .inl rfl⟩

/-- An empty slab on top of others has no types. -/
theorem Store.type?_empty (hid : ∀ slab ∈ slabs, slab.id < id) (t : TypeId) :
    (Store.arena ⟨.empty id, slabs⟩).type? t = Arena.type? ⟨slabs⟩ t := by
  have hlt := Arena.slab_lt_of_type? (a := ⟨slabs⟩) hid (t := t)
  cases h : Arena.type? ⟨slabs⟩ t <;> grind [Store.type?_arena, Store.below, Slab.empty]

/-- An empty slab on top of others has no entities. -/
theorem Store.entity?_empty (hid : ∀ slab ∈ slabs, slab.id < id) (e : EntityId) :
    (Store.arena ⟨.empty id, slabs⟩).entity? e = Arena.entity? ⟨slabs⟩ e := by
  have hlt := Arena.slab_lt_of_entity? (a := ⟨slabs⟩) hid (e := e)
  cases h : Arena.entity? ⟨slabs⟩ e <;> grind [Store.entity?_arena, Store.below, Slab.empty]

theorem Universe.store_slabs : store.frozen = [] ∧ store.current.id = 0 := by
  decide +kernel

/-- The file level is in slab 0, the only one. -/
theorem Check.slabs_fileLevel {files : List File} {links : List (String × Pos)} {collector : Collector} {s : Pass}
    (h : fileLevel config files (.start Universe.store links collector) = .ok () s) :
    s.store.arena.slabs = [s.store.current] ∧ s.store.current.id = 0 := by
  have hgrows : Pass.Grows _ s := (moves_fileLevel config files).ok h
  have hfrozen := hgrows.store.frozen
  have hid := hgrows.store.id
  simp only [Pass.start, Universe.store_slabs] at hfrozen hid
  exact ⟨by rw [Store.arena, hfrozen], hid⟩

end Statics
