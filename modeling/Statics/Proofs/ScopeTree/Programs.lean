import Statics.Proofs.ScopeTree

/-!
# The scopes of a program

Absorbing a slab carries out what it recorded: each scope that was opened under a frozen parent is listed there. So
the scopes of a program are a tree when all jobs are done (`scope_graph_is_tree`), because those of each pass are one
together with what is recorded.
-/

namespace Statics

variable {passes : List Pass} {frozen : List Slab}

/-! ## Absorbing scopes -/

namespace Arena

variable {a b : Arena} {f p : ScopeId}

/-- The children that a scope lists. -/
def childrenOf (a : Arena) (p : ScopeId) : List ScopeId := (a.scope p).children

/-- An arena has what another one has, its scopes under the same parents. -/
structure Embeds (a b : Arena) : Prop extends a.Extends b where
  parents : ∀ f c, a.scope? f = some c → ∃ d, b.scope? f = some d ∧ d.parent = c.parent

theorem Embeds.refl (a : Arena) : a.Embeds a :=
  ⟨⟨fun _ _ h => h, fun _ x h => ⟨x, h, .refl x⟩⟩, fun _ c h => ⟨c, h, rfl⟩⟩

theorem Embeds.trans {c : Arena} (h : a.Embeds b) (h' : b.Embeds c) : a.Embeds c where
  toExtends := h.toExtends.trans h'.toExtends
  parents f x hx := by
    obtain ⟨y, hy, hparent⟩ := h.parents f x hx
    obtain ⟨z, hz, hparent'⟩ := h'.parents f y hy
    exact ⟨z, hz, hparent'.trans hparent⟩

theorem Embeds.has (h : a.Embeds b) (hf : a.Has f) : b.Has f := by
  obtain ⟨c, hc⟩ := Option.isSome_iff_exists.mp hf
  obtain ⟨d, hd, -⟩ := h.parents f c hc
  exact Option.isSome_iff_exists.mpr ⟨d, hd⟩

theorem slab?_map {slabs : List Slab} {g : Slab → Slab} (hg : ∀ s, (g s).id = s.id) (id : Nat) :
    Arena.slab? ⟨slabs.map g⟩ id = (Arena.slab? ⟨slabs⟩ id).map g := by
  have hcomp : (fun s : Slab => s.id == id) ∘ g = fun s => s.id == id := funext fun s => by simp [hg]
  rw [slab?, slab?, List.find?_map, hcomp]

theorem scope?_adopt (slabs : List Slab) (parent child f : ScopeId) : Arena.scope? ⟨adopt slabs parent child⟩ f =
      (Arena.scope? ⟨slabs⟩ f).map fun c => if f = parent then { c with children := c.children ++ [child] } else c := by
  rw [scope?, scope?, adopt, slab?_map]
  · cases hslab : Arena.slab? ⟨slabs⟩ f.slab with
    | none => rfl
    | some s =>
      have hid := List.find?_some hslab
      rw [beq_iff_eq] at hid
      obtain ⟨slab, index⟩ := f
      obtain ⟨slab', index'⟩ := parent
      simp only [Option.map_some, Option.bind_some, Handle.mk.injEq]
      cases hscope : s.scopes[index']? <;> grind
  · grind

theorem scope?_touch (slabs : List Slab) (e : EntityId) (f : ScopeId) :
    Arena.scope? ⟨touch slabs e⟩ f = Arena.scope? ⟨slabs⟩ f := by
  rw [scope?, scope?, touch, slab?_map]
  · cases Arena.slab? ⟨slabs⟩ f.slab <;> grind
  · grind

/-- Children are listed under their parents, in order. -/
theorem scope?_adopts (links : List (ScopeId × ScopeId)) (slabs : List Slab) (f : ScopeId) :
    Arena.scope? ⟨links.foldl (fun slabs link => adopt slabs link.1 link.2) slabs⟩ f =
      (Arena.scope? ⟨slabs⟩ f).map fun c =>
        { c with children := c.children ++ (links.filter fun q => q.1 == f).map Prod.snd } := by
  induction links generalizing slabs with
  | nil => simp
  | cons link rest ih =>
    rw [List.foldl_cons, ih, scope?_adopt, Option.map_map]
    congr 1
    funext c
    by_cases hf : f = link.1
    · simp [hf]
    · have hne : (link.1 == f) = false := beq_eq_false_iff_ne.mpr (Ne.symm hf)
      simp [hf, hne]

theorem scope?_touches (es : List EntityId) (slabs : List Slab) (f : ScopeId) :
    Arena.scope? ⟨es.foldl touch slabs⟩ f = Arena.scope? ⟨slabs⟩ f := by
  induction es generalizing slabs with
  | nil => rfl
  | cons e rest ih => rw [List.foldl_cons, ih, scope?_touch]

/-- Absorbing a slab adds its scopes, and lists children where it recorded them. -/
theorem scope?_absorb {s : Slab} (hs : ∀ r ∈ a.slabs, r.id < s.id) (f : ScopeId) :
    (a.absorb s).scope? f = (if f.slab = s.id then s.scopes[f.index]? else a.scope? f).map fun c =>
      { c with children := c.children ++ (s.adopted.filter fun q => q.1 == f).map Prod.snd } := by
  rw [absorb, scope?_touches, scope?_adopts]
  congr 1
  rw [scope?, slab?_append (s := { s with adopted := [], touched := [] }) hs]
  split <;> rfl

theorem slab_lt_of_scope? {n : Nat} (hn : ∀ r ∈ a.slabs, r.id < n) (hf : (a.scope? f).isSome) : f.slab < n := by
  cases hr : a.slab? f.slab with
  | none => simp [scope?, hr] at hf
  | some r => exact slab_lt_of_slab? hn hr

end Arena

namespace Store

variable {s : Store} {f p : ScopeId}

/-- The children of a scope that were recorded for later. -/
def recorded (s : Store) (p : ScopeId) : List ScopeId := (s.current.adopted.filter fun q => q.1 == p).map Prod.snd

theorem mem_recorded : f ∈ s.recorded p ↔ (p, f) ∈ s.current.adopted := by
  simp [recorded]

namespace Treed

variable (hs : s.Treed)

include hs

theorem recorded_local (hp : p.slab = s.current.id) : s.recorded p = [] := by
  refine List.eq_nil_iff_forall_not_mem.mpr fun f hf => ?_
  exact (hs.adopted _ (mem_recorded.mp hf)).1 hp

theorem slab_of_mem_recorded (hf : f ∈ s.recorded p) : f.slab = s.current.id := (hs.adopted _ (mem_recorded.mp hf)).2

/-- What was recorded is about a parent that is there. -/
theorem has_of_recorded (hf : f ∈ s.recorded p) : s.arena.Has p := by
  obtain ⟨-, c, hc, hparent⟩ := hs.tree.children p f (List.mem_append_right _ hf)
  exact (hs.tree.parent hc hparent).1

/-- With nothing below, everything is listed at once. -/
theorem childrenOf_of_frozen_nil (hnil : s.frozen = []) (p : ScopeId) : s.childrenOf p = s.arena.childrenOf p := by
  have hnone : s.recorded p = [] := by
    refine List.eq_nil_iff_forall_not_mem.mpr fun f hf => ?_
    obtain ⟨c, hc⟩ := Option.isSome_iff_exists.mp (hs.has_of_recorded hf)
    rw [scope?_arena] at hc
    split at hc
    case isTrue hslab => exact (hs.adopted _ (mem_recorded.mp hf)).1 hslab.symm
    case isFalse =>
      rw [Store.below, hnil] at hc
      cases hc
  rw [childrenOf, ← recorded, hnone, List.append_nil]
  rfl

/-- A slab on top of a tree starts as one. -/
theorem empty {id : Nat} (hnil : s.frozen = []) (hid : s.current.id < id) : Treed ⟨.empty id, [s.current]⟩ := by
  have harena : s.arena = ⟨[s.current]⟩ := by rw [arena, hnil]
  have hslabs : ∀ slab ∈ [s.current], slab.id < id := fun slab hslab => List.mem_singleton.mp hslab ▸ hid
  have hscope (f : ScopeId) : (arena ⟨.empty id, [s.current]⟩).scope? f = s.arena.scope? f := by
    rw [scope?_empty hslabs, harena]
  refine ⟨hs.tree.congr hscope (fun e x hx => ⟨x, ?_, rfl⟩) fun p => ?_, hslabs, fun q hq => ?_, fun p hp f hf => ?_⟩
  · rw [entity?_empty hslabs, ← harena]
    exact hx
  · rw [hs.childrenOf_of_frozen_nil hnil, childrenOf, Arena.scope, hscope]
    exact List.append_nil _
  · cases hq
  · rw [Arena.scope, hscope, ← Arena.scope] at hf
    obtain ⟨-, c, hc, -⟩ := hs.tree.children p f (List.mem_append_left _ hf)
    have hlt := Arena.slab_lt_of_scope? (a := ⟨[s.current]⟩) hslabs (Option.isSome_iff_exists.mpr ⟨c, harena ▸ hc⟩)
    exact Nat.ne_of_lt hlt

end Treed

end Store

namespace Arena

variable {a : Arena} {s : Store} (ha : a.Tree a.childrenOf) (hs : s.Treed) (hid : ∀ r ∈ a.slabs, r.id < s.current.id)
  (hbelow : s.below.Embeds a)

include hid

theorem embeds_absorb_self : a.Embeds (a.absorb s.current) where
  toExtends := a.extends_absorb_self hid
  parents f c hc := by
    have hne : f.slab ≠ s.current.id := Nat.ne_of_lt (slab_lt_of_scope? hid (Option.isSome_iff_exists.mpr ⟨c, hc⟩))
    rw [scope?_absorb hid, if_neg hne, hc]
    exact ⟨_, rfl, rfl⟩

include hbelow in
theorem embeds_absorb : s.arena.Embeds (a.absorb s.current) where
  toExtends :=
    (a.gathers_self.absorb hid hbelow.toExtends).toExtends _ (List.mem_append_right _ (List.mem_singleton_self _))
  parents f c hc := by
    rw [Store.scope?_arena] at hc
    split at hc
    case isTrue hslab =>
      rw [scope?_absorb hid, if_pos hslab.symm, hc]
      exact ⟨_, rfl, rfl⟩
    case isFalse =>
      obtain ⟨d, hd, hparent⟩ := hbelow.parents f c hc
      obtain ⟨d', hd', hparent'⟩ := (embeds_absorb_self hid).parents f d hd
      exact ⟨d', hd', hparent'.trans hparent⟩

include hs in
/-- What a scope lists after a slab was absorbed. -/
theorem childrenOf_absorb (hbelow : s.below.Embeds a) (p : ScopeId) : (a.absorb s.current).childrenOf p =
    if p.slab = s.current.id then s.arena.childrenOf p else a.childrenOf p ++ s.recorded p := by
  rw [childrenOf, scope, scope?_absorb hid, ← Store.recorded]
  split
  case isTrue hslab =>
    rw [hs.recorded_local hslab, childrenOf, scope, Store.scope?_arena, if_pos hslab.symm]
    cases s.current.scopes[p.index]? with
    | none => rfl
    | some c => exact List.append_nil _
  case isFalse hslab =>
    rw [childrenOf, scope]
    cases hc : a.scope? p with
    | some c => rfl
    | none =>
      -- nothing was recorded for a scope that is not there
      refine (List.eq_nil_iff_forall_not_mem.mpr fun f hf => ?_).symm
      have hf' := (List.mem_append.mp hf).resolve_left List.not_mem_nil
      obtain ⟨c, hc'⟩ := Option.isSome_iff_exists.mp (hs.has_of_recorded hf')
      rw [Store.scope?_arena, if_neg (Ne.symm hslab)] at hc'
      obtain ⟨d, hd, -⟩ := hbelow.parents p c hc'
      rw [hc] at hd
      cases hd

include ha hs in
/-- Absorbing the slab of a pass keeps the tree. -/
theorem Tree.absorb (hbelow : s.below.Embeds a) : (a.absorb s.current).Tree (a.absorb s.current).childrenOf := by
  have hself : a.Embeds (a.absorb s.current) := embeds_absorb_self hid
  have hpass : s.arena.Embeds (a.absorb s.current) := embeds_absorb hid hbelow
  have holdslab {f : ScopeId} {c : Scope} (hc : a.scope? f = some c) : f.slab ≠ s.current.id :=
    Nat.ne_of_lt (slab_lt_of_scope? hid (Option.isSome_iff_exists.mpr ⟨c, hc⟩))
  -- a scope is one of the slab, or one that was there
  have hread {f : ScopeId} {c : Scope} (hc : (a.absorb s.current).scope? f = some c) :
      ∃ d, c.parent = d.parent ∧ c.kind = d.kind ∧ c.bindings = d.bindings ∧
        (f.slab = s.current.id ∧ s.arena.scope? f = some d ∨ a.scope? f = some d) := by
    rw [scope?_absorb hid] at hc
    obtain ⟨d, hd, rfl⟩ := Option.map_eq_some_iff.mp hc
    refine ⟨d, rfl, rfl, rfl, ?_⟩
    split at hd
    case isTrue hslab => exact .inl ⟨hslab, by rw [Store.scope?_arena, if_pos hslab.symm, hd]⟩
    case isFalse => exact .inr hd
  have hbound {b : Arena} (hb : b.Embeds (a.absorb s.current)) {q : String × EntityId}
      (hq : q.1 ≠ discard ∧ ∃ x, b.entity? q.2 = some x ∧ x.token.text = q.1) :
      q.1 ≠ discard ∧ ∃ x, (a.absorb s.current).entity? q.2 = some x ∧ x.token.text = q.1 := by
    obtain ⟨hne, x, hx, hname⟩ := hq
    obtain ⟨y, hy, hkeeps⟩ := hb.toExtends.entities q.2 x hx
    exact ⟨hne, y, hy, hkeeps.token ▸ hname⟩
  refine ⟨?_, fun f c hc hne => ?_, fun f c p hc hp hne => ?_, fun p f hf => ?_, fun f c hc q hq => ?_,
    fun f c hc => ?_⟩
  · obtain ⟨c, hc, hnone, hkind⟩ := ha.root
    rw [scope?_absorb hid, if_neg (holdslab hc), hc]
    exact ⟨_, rfl, hnone, hkind⟩
  · obtain ⟨d, hparent, hkind, -, ⟨-, hd⟩ | hd⟩ := hread hc
    · obtain ⟨hne', p, hp, hhas, hbefore⟩ := hs.tree.inner f d hd hne
      exact ⟨hkind ▸ hne', p, hparent.trans hp, hpass.has hhas, hbefore⟩
    · obtain ⟨hne', p, hp, hhas, hbefore⟩ := ha.inner f d hd hne
      exact ⟨hkind ▸ hne', p, hparent.trans hp, hself.has hhas, hbefore⟩
  · rw [childrenOf_absorb hs hid hbelow]
    obtain ⟨d, hparent, -, -, ⟨hslab, hd⟩ | hd⟩ := hread hc
    · have hcount := hs.tree.listed f d p hd (hparent ▸ hp) hne
      rw [Store.childrenOf, ← Store.recorded, List.count_append] at hcount
      split
      case isTrue hp =>
        rw [hs.recorded_local hp, List.count_nil, Nat.add_zero] at hcount
        exact hcount
      case isFalse hp =>
        have hlisted : (s.arena.scope p).children.count f = 0 :=
          List.count_eq_zero.mpr fun hmem => hs.frozen p hp f hmem hslab
        have hthere : (a.childrenOf p).count f = 0 := by
          refine List.count_eq_zero.mpr fun hmem => ?_
          obtain ⟨-, c', hc', -⟩ := ha.children p f hmem
          exact holdslab hc' hslab
        rw [List.count_append]
        omega
    · have hcount := ha.listed f d p hd (hparent ▸ hp) hne
      have hpslab : p.slab ≠ s.current.id := by
        obtain ⟨d', hd'⟩ := Option.isSome_iff_exists.mp (ha.parent hd (hparent ▸ hp)).1
        exact holdslab hd'
      rw [if_neg hpslab, List.count_append, hcount, List.count_eq_zero.mpr]
      exact fun hmem => holdslab hd (hs.slab_of_mem_recorded hmem)
  · rw [childrenOf_absorb hs hid hbelow] at hf
    have hfromPass (hf : f ∈ s.childrenOf p) :
        p ≠ .global ∧ ∃ c, (a.absorb s.current).scope? f = some c ∧ c.parent = some p := by
      obtain ⟨hne, c, hc, hparent⟩ := hs.tree.children p f hf
      obtain ⟨d, hd, hparent'⟩ := hpass.parents f c hc
      exact ⟨hne, d, hd, hparent'.trans hparent⟩
    split at hf
    · exact hfromPass (List.mem_append_left _ hf)
    · rcases List.mem_append.mp hf with hf | hf
      · obtain ⟨hne, c, hc, hparent⟩ := ha.children p f hf
        obtain ⟨d, hd, hparent'⟩ := hself.parents f c hc
        exact ⟨hne, d, hd, hparent'.trans hparent⟩
      · exact hfromPass (List.mem_append_right _ hf)
  · obtain ⟨d, -, -, hbindings, ⟨-, hd⟩ | hd⟩ := hread hc
    · exact hbound hpass (hs.tree.bound f d hd q (hbindings ▸ hq))
    · exact hbound hself (ha.bound f d hd q (hbindings ▸ hq))
  · obtain ⟨d, -, -, hbindings, ⟨-, hd⟩ | hd⟩ := hread hc
    · exact hbindings ▸ hs.tree.distinct f d hd
    · exact hbindings ▸ ha.distinct f d hd

end Arena

/-- The slabs of passes are absorbed one after the other. -/
theorem Pass.Numbered.tree {id : Nat} (h : Numbered frozen id passes)
    (hpasses : ∀ s ∈ passes, s.store.Treed) (ha : a.Tree a.childrenOf) (hid : ∀ r ∈ a.slabs, r.id < id)
    (hfrozen : Arena.Embeds ⟨frozen⟩ a) :
    (passes.foldl (fun a s => a.absorb s.store.current) a).Tree
      (passes.foldl (fun a s => a.absorb s.store.current) a).childrenOf := by
  induction h generalizing a with
  | nil => exact ha
  | @cons id s passes hstore _ ih =>
    obtain ⟨hsid, hsfrozen⟩ := hstore
    obtain ⟨hs, hrest⟩ := List.forall_mem_cons.mp hpasses
    rw [← hsid] at hid
    have hbelow : s.store.below.Embeds a := by
      unfold Store.below
      rwa [hsfrozen]
    exact ih hrest (ha.absorb hs hid hbelow) (hsid ▸ Arena.lt_of_mem_absorb hid)
      (hfrozen.trans (Arena.embeds_absorb_self hid))

/-- What the passes have, the arena has that they are put together in. -/
theorem Pass.Numbered.embeds {id : Nat} (h : Numbered frozen id passes)
    (hid : ∀ r ∈ a.slabs, r.id < id) (hfrozen : Arena.Embeds ⟨frozen⟩ a) :
    a.Embeds (passes.foldl (fun a s => a.absorb s.store.current) a) ∧
      ∀ s ∈ passes, s.store.arena.Embeds (passes.foldl (fun a s => a.absorb s.store.current) a) := by
  induction h generalizing a with
  | nil => exact ⟨.refl a, fun _ h => by cases h⟩
  | @cons id s passes hstore _ ih =>
    obtain ⟨hsid, hsfrozen⟩ := hstore
    rw [← hsid] at hid
    have hbelow : s.store.below.Embeds a := by
      unfold Store.below
      rwa [hsfrozen]
    have hself : a.Embeds (a.absorb s.store.current) := Arena.embeds_absorb_self hid
    obtain ⟨hall, hrest⟩ := ih (hsid ▸ Arena.lt_of_mem_absorb hid) (hfrozen.trans hself)
    exact ⟨hself.trans hall, List.forall_mem_cons.mpr ⟨(Arena.embeds_absorb hid hbelow).trans hall, hrest⟩⟩

/-! ## Programs -/

/-- The scopes of the universe, read off it in one evaluation. -/
theorem Universe.scopes_spec : store.current.scopes.size = 1 ∧ store.current.adopted = [] ∧
      (store.arena.scope .global).parent = none ∧ (store.arena.scope .global).kind = .global ∧
      (store.arena.scope .global).children = [] ∧ (store.arena.scope .global).bindings.names.Nodup ∧
      ∀ q ∈ (store.arena.scope .global).bindings.entries,
        q.1 ≠ discard ∧ (store.arena.entity? q.2).any fun x => x.token.text == q.1 := by
  decide +kernel

theorem Universe.treed : store.Treed := by
  obtain ⟨hsize, hadopted, hparent, hkind, hchildren, hnodup, hbound⟩ := scopes_spec
  have hslabs := store_slabs
  have hglobal := parts_spec.2.1
  generalize store = st at *
  obtain ⟨g, hg⟩ := Option.isSome_iff_exists.mp hglobal
  rw [Arena.scope_eq hg] at hparent hkind hchildren hnodup hbound
  -- the global scope is the only one
  have honly {f : ScopeId} {c : Scope} (hc : st.arena.scope? f = some c) : f = .global ∧ c = g := by
    obtain ⟨slab, hslab, hget⟩ := Option.bind_eq_some_iff.mp hc
    obtain ⟨hid, rfl⟩ := Store.slab?_eq_some hslabs hslab
    have hlt := (Array.getElem?_eq_some_iff.mp hget).1
    have hindex : f.index = 0 := by omega
    have hf : f = .global := by
      obtain ⟨id, index⟩ := f
      cases hid
      cases hindex
      rfl
    subst hf
    rw [hg] at hc
    cases hc
    exact ⟨rfl, rfl⟩
  have hnone (p : ScopeId) : (st.arena.scope p).children = [] := by
    rw [Arena.scope]
    cases hc : st.arena.scope? p with
    | none => rfl
    | some c => rw [Option.getD_some, (honly hc).2, hchildren]
  have hchildrenOf (p : ScopeId) : st.childrenOf p = [] := by
    rw [Store.childrenOf, hnone, hadopted]
    rfl
  refine ⟨⟨⟨g, hg, hparent, hkind⟩, fun f c hc hne => absurd (honly hc).1 hne, fun f c p hc hp => ?_, fun p f hf => ?_,
    fun f c hc q hq => ?_, fun f c hc => (honly hc).2 ▸ hnodup⟩, ?_, ?_, fun p _ f hf => ?_⟩
  · rw [(honly hc).2, hparent] at hp
    cases hp
  · rw [hchildrenOf] at hf
    cases hf
  · obtain ⟨hne, hany⟩ := hbound q ((honly hc).2 ▸ hq)
    obtain ⟨x, hx, hname⟩ := (Option.any_eq_true _ _).mp hany
    exact ⟨hne, x, hx, by simpa using hname⟩
  · simp [hslabs.1]
  · simp [hadopted]
  · rw [hnone] at hf
    cases hf

namespace Program

variable {config : Config} {files : List File}

/-- In every state of a program the scopes are a tree. -/
theorem throughout_treed (config : Config) (files : List File) :
    Throughout config files fun s => s.Valid ∧ s.store.Treed := by
  obtain ⟨hid, hnil⟩ := slabs_fileEnd config files
  exact (throughout_valid config files).maintain (fun _ => Store.Treed.step) Universe.treed fun id hpos hend =>
    hend.empty hnil (hid ▸ hpos)

/-- The file level as what jobs have below their slabs. -/
theorem embeds_fileEnd : Arena.Embeds ⟨[(fileEnd config files).store.current]⟩ (fileEnd config files).store.arena := by
  rw [arena_fileEnd]
  exact .refl _

theorem Merges.embeds_ends {p : Program} (h : Merges config files passes p) :
    ∀ s ∈ fileEnd config files :: passes, s.store.arena.Embeds p.arena := by
  obtain ⟨hfile, hjobs⟩ := h.numbered.embeds (below_jobOpening config files Nat.one_pos) (embeds_fileEnd)
  rw [h.arena]
  exact List.forall_mem_cons.mpr ⟨hfile, hjobs⟩

theorem Merges.tree {passes : List Pass} {p : Program} (h : Merges config files passes p) :
    p.arena.Tree p.arena.childrenOf := by
  have hends := h.holds_ends (throughout_treed config files)
  obtain ⟨-, hnil⟩ := slabs_fileEnd config files
  have hfile := (hends _ List.mem_cons_self).2
  rw [h.arena]
  refine h.numbered.tree (fun s hs => (hends s (List.mem_cons_of_mem _ hs)).2) ?_
    (below_jobOpening config files Nat.one_pos) (embeds_fileEnd)
  exact hfile.tree.congr (fun _ => rfl) (fun _ x hx => ⟨x, hx, rfl⟩) fun p =>
    (hfile.childrenOf_of_frozen_nil hnil p).symm

end Program

/-- When a check is done, every scope but the global one has an older parent and is listed there exactly once, unless
the parent is the global scope, which lists none; what a scope lists has it as a parent; every name that is bound is
the text of its entity and never the discard name. So all ways out end at the global scope, and looking a name up
gives the binding of the first scope on the way that has it. -/
theorem scope_graph_is_tree (config : Config) (files : List File) : let a := (checkFiles config files).arena
    a.Tree a.childrenOf ∧ a.childrenOf .global = [] ∧
      ∀ f, a.Has f → a.Walk f (a.chain f) ∧ (a.chain f).getLast? = some .global ∧
        ∀ name r, a.lookup f name = r ↔ a.Finds name f r := by
  obtain ⟨passes, hmerges⟩ := Program.merges_checkFiles config files
  have htree := hmerges.tree
  refine ⟨htree, htree.children_global, fun f hf => ?_⟩
  obtain ⟨hwalk, hlast⟩ := htree.walk_chain hf
  exact ⟨hwalk, hlast, fun name r => htree.lookup_eq_iff hf r⟩

open Nesting in
/-- In the body of `inner`, the name `v` stands for the variable of `outer`, two scopes further out. -/
theorem scope_graph_is_tree_nested_procedure : (checkFiles .standard plain).arena.Has innerBody ∧
      (checkFiles .standard plain).arena.Finds "v" innerBody (some (⟨1, 0⟩, outerBody)) := by
  have hlookup : (checkFiles .standard plain).arena.Has innerBody ∧
      (checkFiles .standard plain).arena.lookup innerBody "v" = some (⟨1, 0⟩, outerBody) := by
    decide +kernel
  exact ⟨hlookup.1, (((scope_graph_is_tree .standard plain).2.2 innerBody hlookup.1).2.2 "v" _).mp hlookup.2⟩

end Statics
