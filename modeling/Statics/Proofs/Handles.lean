import Statics.Proofs.ScopeTree.Programs

/-!
# Handles stay in bounds

A handle is the number of a slab and an index. Nothing checks it when it is used, so everything rests on where handles
come from: what a pass refers to is allocated in the slab it writes or in slab 0 (`Pass.Valid.has_of_refers`), and
what a program refers to is allocated in one of its slabs. Reading is stated with accesses that fail out of bounds:
slabs are found by their places (`Store.slab?`), and no step of `Arena.lookupWithin?` or `Arena.baseWithin?` fails.

When the slab of a job is absorbed, scopes of slab 0 list those that the job opened under them, so slab 0 does not
stay closed (`slab_zero_lists_body`).
-/

namespace Statics

variable {pool : Pool} {s : Pass} {passes : List Pass}

/-! ## What is referred to -/

/-- Number of places in a pool of a slab. -/
def Slab.size (s : Slab) : Pool → Nat
  | .scope => s.scopes.size
  | .entity => s.entities.size
  | .type => s.types.size

/-- A handle is that of an allocated place of a slab. -/
def Slab.Holds (s : Slab) {pool : Pool} (h : Handle pool) : Prop := h.slab = s.id ∧ h.index < s.size pool

/-- The types that a type refers to itself. -/
def Ty.types : Ty → List TypeId
  | .basic _ | .record .. => []
  | .named _ base _ => base.toList
  | .pointer t | .array _ t | .slice t => [t]
  | .enum base _ => [base]
  | .tuple items => items
  | .proc params results => params ++ results

/-- The entities that a type refers to. -/
def Ty.entities : Ty → List EntityId
  | .named _ _ e => [e]
  | .record _ fields => fields
  | .enum _ members => members
  | _ => []

/-- A handle is stored in a scope, other than as that of a child. -/
inductive Scope.Refers (c : Scope) : {pool : Pool} → Handle pool → Prop where
  | parent {p : ScopeId} : c.parent = some p → Refers c p
  | bound {e : EntityId} : e ∈ c.bindings.entities → Refers c e

inductive Entity.Refers (x : Entity) : {pool : Pool} → Handle pool → Prop where
  | home {f : ScopeId} : x.home = some f → Refers x f
  | through {e : EntityId} : x.through = some e → Refers x e
  | scope {f : ScopeId} : x.kind.scope? = some f → Refers x f
  | type {t : TypeId} : x.type = some t → Refers x t

inductive Ty.Refers (τ : Ty) : {pool : Pool} → Handle pool → Prop where
  | type {t : TypeId} : t ∈ τ.types → Refers τ t
  | entity {e : EntityId} : e ∈ τ.entities → Refers τ e

/-- A handle is stored in what an arena has at another one. -/
inductive Arena.Refers (a : Arena) : {p q : Pool} → Handle p → Handle q → Prop where
  | scope {f : ScopeId} {c : Scope} {q : Pool} {g : Handle q} : a.scope? f = some c → c.Refers g → Refers a f g
  | entity {e : EntityId} {x : Entity} {q : Pool} {g : Handle q} : a.entity? e = some x → x.Refers g → Refers a e g
  | type {t : TypeId} {τ : Ty} {q : Pool} {g : Handle q} : a.type? t = some τ → τ.Refers g → Refers a t g

/-- A handle is found from another one by reading what is stored. -/
inductive Arena.Reaches (a : Arena) {p : Pool} (h : Handle p) : {q : Pool} → Handle q → Prop where
  | self : Reaches a h h
  | refers {q r : Pool} {g : Handle q} {k : Handle r} : Reaches a h g → a.Refers g k → Reaches a h k
  | child {f g : ScopeId} : Reaches a h f → g ∈ a.childrenOf f → Reaches a h g

/-- A handle is stored in a slab. -/
inductive Slab.Refers (s : Slab) : {pool : Pool} → Handle pool → Prop where
  | scope {c : Scope} {pool : Pool} {h : Handle pool} : c ∈ s.scopes → c.Refers h → Refers s h
  | child {c : Scope} {f : ScopeId} : c ∈ s.scopes → f ∈ c.children → Refers s f
  | entity {x : Entity} {pool : Pool} {h : Handle pool} : x ∈ s.entities → x.Refers h → Refers s h
  | type {τ : Ty} {pool : Pool} {h : Handle pool} : τ ∈ s.types → τ.Refers h → Refers s h
  | adopts {q : ScopeId × ScopeId} : q ∈ s.adopted → Refers s q.1
  | adopted {q : ScopeId × ScopeId} : q ∈ s.adopted → Refers s q.2
  | touched {e : EntityId} : e ∈ s.touched → Refers s e

/-- A handle is stored in annotations. -/
inductive Annotations.Refers (n : Annotations) : {pool : Pool} → Handle pool → Prop where
  | type {p : NodeId × Note} : p ∈ n.types.entries → Refers n p.2.type
  | definition {p : NodeId × EntityId} : p ∈ n.definitions.entries → Refers n p.2
  | use {p : NodeId × EntityId} : p ∈ n.uses.entries → Refers n p.2
  | scope {p : NodeId × ScopeId} : p ∈ n.scopes.entries → Refers n p.2

/-- A handle is stored in the state of a pass: in its slab, its annotations, its declarations and bodies that wait, or
its tables. -/
inductive Pass.Refers (s : Pass) : {pool : Pool} → Handle pool → Prop where
  | slab {pool : Pool} {h : Handle pool} : s.store.current.Refers h → Refers s h
  | note {pool : Pool} {h : Handle pool} : s.notes.Refers h → Refers s h
  | declared {p : EntityId × Declaration} : p ∈ s.decls → Refers s p.1
  | declaredIn {p : EntityId × Declaration} : p ∈ s.decls → Refers s p.2.scope
  | declaredWith {p : EntityId × Declaration} {e : EntityId} : p ∈ s.decls → e ∈ p.2.variables → Refers s e
  | body {b : Body} : b ∈ s.queue → Refers s b.entity
  | bodyScope {b : Body} : b ∈ s.queue → Refers s b.scope
  | bodyType {b : Body} : b ∈ s.queue → Refers s b.type
  | foreign {p : String × EntityId} : p ∈ s.foreigns → Refers s p.2
  | file {p : String × ScopeId} : p ∈ s.files → Refers s p.2
  | importName {e : EntityId} : e ∈ s.imports → Refers s e

/-- A handle is stored in a program. -/
inductive Program.Refers (p : Program) : {pool : Pool} → Handle pool → Prop where
  | arena {q r : Pool} {h : Handle q} {g : Handle r} : p.arena.Refers h g → Refers p g
  | child {f g : ScopeId} : g ∈ p.arena.childrenOf f → Refers p g
  | note {pool : Pool} {h : Handle pool} : p.notes.Refers h → Refers p h
  | file {q : String × ScopeId} : q ∈ p.files → Refers p q.2
  | importName {e : EntityId} : e ∈ p.imports → Refers p e

/-! ## Accesses that can fail -/

/-- The slab with a number: the one to write, or that at the place of the number among the frozen ones. -/
def Store.slab? (s : Store) (id : Nat) : Option Slab := if id = s.current.id then some s.current else s.frozen[id]?

/-- Looks a name up in at most `fuel` scopes. It fails at a handle that is not that of a scope. -/
def Arena.lookupWithin? (a : Arena) (name : String) : Nat → Option ScopeId → Option (Option (EntityId × ScopeId))
  | 0, _ | _, none => some none
  | fuel + 1, some f => (a.scope? f).bind fun c =>
    match c.bindings.get? name with
    | some e => some (some (e, f))
    | none => lookupWithin? a name fuel c.parent

/-- The type under at most `fuel - 1` names. It fails at a handle that is not that of a type. -/
def Arena.baseWithin? (a : Arena) : Nat → TypeId → Option TypeId
  | 0, _ => some .invalid
  | fuel + 1, t => (a.type? t).bind fun
    | .named _ (some base) _ => baseWithin? a fuel base
    | _ => some t

/-- No access fails in an arena whose slabs are found by `slab?`: not at a handle that is allocated, nor at one that
is found from there. -/
structure Arena.InBounds (a : Arena) (slab? : Nat → Option Slab) : Prop where
  held : ∀ {pool : Pool} (h : Handle pool), a.Has h → ∃ slab, slab? h.slab = some slab ∧ h.index < slab.size pool
  reached : ∀ {p q : Pool} (h : Handle p) (g : Handle q), a.Has h → a.Reaches h g → a.Has g
  lookup : ∀ f name, a.Has f → a.lookupWithin? name a.scopeCount (some f) = some (a.lookup f name)
  base : ∀ t, a.Has t → (a.baseWithin? 1024 t).bind a.type? = some (a.base t)

/-- What an arena refers to is there. -/
structure Arena.Whole (a : Arena) : Prop where
  refers : ∀ {p q : Pool} {h : Handle p} {g : Handle q}, a.Refers h g → a.Has g
  children : ∀ {f g : ScopeId}, g ∈ a.childrenOf f → a.Has g
  invalid : a.Has TypeId.invalid

namespace Arena

variable {a : Arena}

/-- What an arena has is in one of its slabs. -/
theorem exists_slab {h : Handle pool} (hh : a.Has h) :
    ∃ slab, a.slab? h.slab = some slab ∧ h.index < slab.size pool := by
  cases pool <;> obtain ⟨x, hx⟩ := Option.isSome_iff_exists.mp hh <;>
    obtain ⟨slab, hslab, hget⟩ := Option.bind_eq_some_iff.mp hx <;>
    exact ⟨slab, hslab, (Array.getElem?_eq_some_iff.mp hget).1⟩

theorem Has.mem_ids {h : Handle pool} (hh : a.Has h) : h.slab ∈ a.slabs.map Slab.id := by
  obtain ⟨slab, hslab, -⟩ := exists_slab hh
  have hid := List.find?_some hslab
  rw [beq_iff_eq] at hid
  exact List.mem_map.mpr ⟨slab, List.mem_of_find?_eq_some hslab, hid⟩

/-- Slabs that are numbered by their places are found there. -/
theorem getElem?_of_slab? {n id : Nat} {slab : Slab} (hids : a.slabs.map Slab.id = List.range n)
    (h : a.slab? id = some slab) : a.slabs[id]? = some slab := by
  have hid := List.find?_some h
  rw [beq_iff_eq] at hid
  obtain ⟨i, hi⟩ := List.mem_iff_getElem?.mp (List.mem_of_find?_eq_some h)
  have hrange : (List.range n)[i]? = some slab.id := by rw [← hids, List.getElem?_map, hi, Option.map_some]
  obtain ⟨hlt, heq⟩ := List.getElem?_eq_some_iff.mp hrange
  rw [List.getElem_range] at heq
  rwa [← hid, ← heq]

namespace Whole

variable (h : a.Whole)

include h

theorem has_of_reaches {p q : Pool} {f : Handle p} {g : Handle q} (hf : a.Has f) (hg : a.Reaches f g) : a.Has g := by
  cases hg with
  | self => exact hf
  | refers _ hrefers => exact h.refers hrefers
  | child _ hmem => exact h.children hmem

theorem lookupWithin?_eq (name : String) (fuel : Nat) (f : Option ScopeId) (hf : ∀ g, f = some g → a.Has g) :
    a.lookupWithin? name fuel f =
      some ((a.chainWithin fuel f).findSome? fun s => (a.lookupLocal s name).map fun e => (e, s)) := by
  induction fuel generalizing f with
  | zero => rfl
  | succ fuel ih =>
    cases f with
    | none => rfl
    | some g =>
      obtain ⟨c, hc⟩ := Option.isSome_iff_exists.mp (hf g rfl)
      rw [lookupWithin?, hc, Option.bind_some, chainWithin, List.findSome?_cons, lookupLocal, scope_eq hc]
      cases c.bindings.get? name with
      | some e => rfl
      | none => exact ih c.parent fun p hp => h.refers (.scope hc (.parent hp))

theorem baseWithin?_eq (fuel : Nat) {t : TypeId} (ht : a.Has t) :
    a.baseWithin? fuel t = some (a.baseWithin fuel t) ∧ a.Has (a.baseWithin fuel t) := by
  induction fuel generalizing t with
  | zero => exact ⟨rfl, h.invalid⟩
  | succ fuel ih =>
    obtain ⟨τ, hτ⟩ := Option.isSome_iff_exists.mp ht
    rw [baseWithin?, baseWithin, hτ, Option.bind_some, type_eq hτ]
    cases τ with
    | named _ base _ =>
      cases base with
      | none => exact ⟨rfl, ht⟩
      | some base => exact ih (h.refers (.type hτ (.type (Option.mem_toList.mpr rfl))))
    | _ => exact ⟨rfl, ht⟩

theorem inBounds {slab? : Nat → Option Slab} (hslab : ∀ id slab, a.slab? id = some slab → slab? id = some slab) :
    a.InBounds slab? where
  held _ hh := by
    obtain ⟨slab, hfound, hlt⟩ := exists_slab hh
    exact ⟨slab, hslab _ _ hfound, hlt⟩
  reached _ _ hf hg := h.has_of_reaches hf hg
  lookup f name hf := h.lookupWithin?_eq name _ (some f) fun _ heq => Option.some.inj heq ▸ hf
  base t ht := by
    obtain ⟨heq, hbase⟩ := h.baseWithin?_eq 1024 ht
    obtain ⟨τ, hτ⟩ := Option.isSome_iff_exists.mp hbase
    rw [heq, Option.bind_some, hτ, base, baseType, type_eq hτ]

end Whole

end Arena

/-! ## What is referred to is there -/

section

variable {v : View} {pool : Pool} {g : Handle pool}

theorem Scope.Valid.has {c : Scope} (hc : c.Valid v) (h : c.Refers g) : v.Has g := by
  cases h with
  | parent hp => exact hc.parent _ hp
  | bound he => exact hc.bound _ he

theorem Entity.Valid.has (hv : v.Intact) {e : EntityId} {x : Entity} (hx : x.Valid v e)
    (hread : v.arena.entity? e = some x) (h : x.Refers g) : v.Has g := by
  cases h with
  | home hf => exact hx.home _ hf
  | through ho => exact hx.through _ ho
  | scope hf => exact hx.scope _ hf
  | @type t ht =>
    by_cases he : e ∈ Universe.literals
    · obtain ⟨y, hy, hliteral⟩ := hv.literals e he
      obtain rfl := Option.some.inj (hread.symm.trans hy)
      rcases hliteral with ⟨-, htype⟩ | ⟨-, -, htype⟩ <;> obtain rfl := Option.some.inj (ht.symm.trans htype) <;>
        exact hv.has_basic _
    · exact (hx.type t ht he).has

theorem Ty.has_of_valid {τ : Ty} (hτ : τ.Valid v) (h : τ.Refers g) : v.Has g := by
  cases h with
  | @type t ht =>
    cases τ with
    | basic | record => cases ht
    | named _ base e =>
      obtain ⟨σ, hσ, -⟩ := hτ.2 t (Option.mem_toList.mp ht)
      exact Option.isSome_iff_exists.mpr ⟨σ, hσ⟩
    | pointer | array | slice => exact List.mem_singleton.mp ht ▸ View.Settled.has hτ
    | enum base members => exact List.mem_singleton.mp ht ▸ hτ.1.has
    | tuple items => exact (hτ t ht).has
    | proc params results =>
      rcases List.mem_append.mp ht with ht | ht
      · exact (hτ.1 t ht).has
      · exact (hτ.2 t ht).has
  | @entity e he =>
    cases τ with
    | named _ base e' => exact List.mem_singleton.mp he ▸ hτ.1
    | record _ fields => exact (hτ e he).has
    | enum base members => exact (hτ.2 e he).has
    | _ => cases he

end

namespace Pass.Valid

variable {s : Pass} (hs : s.Valid) {pool : Pool} {g : Handle pool}

include hs

theorem whole : s.store.arena.Whole where
  refers h := by
    cases h with
    | scope hc hrefers => exact (hs.intact.scopes _ _ hc).has hrefers
    | entity hx hrefers => exact (hs.intact.entities _ _ hx).has hs.intact hx hrefers
    | type hτ hrefers => exact Ty.has_of_valid (hs.intact.types _ _ hτ) hrefers
  children {f g} hg := by
    rw [Arena.childrenOf, Arena.scope] at hg
    cases hc : s.store.arena.scope? f with
    | none => simp [hc, Scope.blank] at hg
    | some c => exact (hs.intact.scopes f c hc).children g (by rwa [hc] at hg)
  invalid := hs.intact.has_basic .invalid

theorem has_of_slab (h : s.store.current.Refers g) : s.store.arena.Has g := by
  have hscope {c : Scope} (hc : c ∈ s.store.current.scopes) : ∃ f, s.store.arena.scope? f = some c := by
    obtain ⟨i, hi⟩ := Array.mem_iff_getElem?.mp hc
    exact ⟨⟨s.store.current.id, i⟩, (Store.scope?_arena ..).trans ((if_pos rfl).trans hi)⟩
  cases h with
  | scope hc hrefers =>
    obtain ⟨f, hf⟩ := hscope hc
    exact hs.whole.refers (.scope hf hrefers)
  | child hc hmem =>
    obtain ⟨f, hf⟩ := hscope hc
    exact (hs.intact.scopes f _ hf).children _ hmem
  | entity hx hrefers =>
    obtain ⟨i, hi⟩ := Array.mem_iff_getElem?.mp hx
    exact hs.whole.refers (.entity (e := ⟨s.store.current.id, i⟩)
      ((Store.entity?_arena ..).trans ((if_pos rfl).trans hi)) hrefers)
  | type hτ hrefers =>
    obtain ⟨i, hi⟩ := Array.mem_iff_getElem?.mp hτ
    exact hs.whole.refers (.type (t := ⟨s.store.current.id, i⟩)
      ((Store.type?_arena ..).trans ((if_pos rfl).trans hi)) hrefers)
  | adopts hq => exact (hs.intact.adopted _ hq).1
  | adopted hq => exact (hs.intact.adopted _ hq).2
  | touched he => exact hs.intact.touched _ he

theorem has_of_note (h : s.notes.Refers g) : s.store.arena.Has g := by
  cases h with
  | type hp => exact (hs.noted _ hp).has
  | definition hp => exact hs.defined _ hp
  | use hp => exact hs.referred _ hp
  | scope hp => exact hs.opened _ hp

/-- What a valid state refers to is there. -/
theorem has_of_refers (h : s.Refers g) : s.store.arena.Has g := by
  cases h with
  | slab h => exact hs.has_of_slab h
  | note h => exact hs.has_of_note h
  | declared hp => exact (hs.decls _ hp).1
  | declaredIn hp => exact (hs.decls _ hp).2.scope
  | declaredWith hp he => exact (hs.decls _ hp).2.entities _ he
  | body hb => exact (hs.queue _ hb).entity
  | bodyScope hb => exact (hs.queue _ hb).scope
  | bodyType hb => exact (hs.queue _ hb).type
  | foreign hp => exact hs.foreigns _ hp
  | file hp => exact hs.files _ hp
  | importName he => exact hs.imports _ he

end Pass.Valid

/-! ## States and programs -/

open Check in
/-- A pass writes slab `id` over `frozen`, and everything that is stored in its state is allocated there. No access to
what it reads fails, and the type of what an expression evaluates to is allocated as well. -/
structure Pass.InBounds (s : Pass) (id : Nat) (frozen : List Slab) : Prop where
  slabs : s.store.current.id = id ∧ s.store.frozen = frozen
  stored : ∀ {pool : Pool} (h : Handle pool), s.Refers h → s.store.arena.Has h
  reads : s.store.arena.InBounds s.store.slab?
  evaluated : ∀ ctx, ctx.Valid s → ∀ e x t, expr demand ctx .value e s = .ok x t → t.store.arena.Has x.type

theorem Pass.Valid.inBounds (hs : s.Valid) {n : Nat} (hids : s.store.frozen.map Slab.id = List.range n) :
    s.InBounds s.store.current.id s.store.frozen where
  slabs := ⟨rfl, rfl⟩
  stored _ h := hs.has_of_refers h
  reads := hs.whole.inBounds fun id slab hslab => by
    rw [Store.slab?_arena] at hslab
    rw [Store.slab?]
    split
    case isTrue hid => rwa [if_pos hid.symm] at hslab
    case isFalse hid =>
      rw [if_neg (Ne.symm hid)] at hslab
      exact Arena.getElem?_of_slab? (a := s.store.below) hids hslab
  evaluated ctx hctx e x t hrun := ((Check.delivers_expr hctx e hs).2 x t hrun).has

/-- Everything that is stored in a program is allocated there, and no access fails. What is stored in a slab is in
that slab or in slab 0, but for the children of scopes of slab 0. -/
structure Program.InBounds (p : Program) : Prop where
  stored : ∀ {pool : Pool} (h : Handle pool), p.Refers h → p.arena.Has h
  reads : p.arena.InBounds fun id => p.arena.slabs[id]?
  apart : ∀ {q r : Pool} (h : Handle q) (g : Handle r), p.arena.Refers h g → g.slab = 0 ∨ g.slab = h.slab
  children : ∀ f, ∀ g ∈ p.arena.childrenOf f, f.slab = 0 ∨ f.slab = g.slab

section

variable {a : Arena} {q r : Pool} {f : Handle q} {g : Handle r}

/-- What is stored where a slab was absorbed was stored there before, or in the slab. -/
theorem Arena.refers_absorb {s : Store} (hid : ∀ r ∈ a.slabs, r.id < s.current.id)
    (hg : (a.absorb s.current).Refers f g) : a.Refers f g ∨ f.slab = s.current.id ∧ s.arena.Refers f g := by
  cases hg with
  | @scope _ c _ _ hc hrefers =>
    rw [scope?_absorb hid] at hc
    obtain ⟨d, hd, rfl⟩ := Option.map_eq_some_iff.mp hc
    have hrefers' : d.Refers g := by
      cases hrefers with
      | parent h => exact .parent h
      | bound h => exact .bound h
    split at hd
    case isTrue hslab => exact .inr ⟨hslab, .scope (by rw [Store.scope?_arena, if_pos hslab.symm, hd]) hrefers'⟩
    case isFalse => exact .inl (.scope hd hrefers')
  | @entity e y _ _ hy hrefers =>
    obtain ⟨x, hx, hxy⟩ := exists_of_entity?_absorb hid hy
    have hrefers' : x.Refers g := by
      rcases hxy with rfl | rfl
      · exact hrefers
      · cases hrefers with
        | home h => exact .home h
        | through h => exact .through h
        | scope h => exact .scope h
        | type h => exact .type h
    split at hx
    case isTrue hslab => exact .inr ⟨hslab, .entity (by rw [Store.entity?_arena, if_pos hslab.symm, hx]) hrefers'⟩
    case isFalse => exact .inl (.entity hx hrefers')
  | type hτ hrefers =>
    rw [type?_absorb hid] at hτ
    split at hτ
    case isTrue hslab => exact .inr ⟨hslab, .type (by rw [Store.type?_arena, if_pos hslab.symm, hτ]) hrefers⟩
    case isFalse => exact .inl (.type hτ hrefers)

theorem Pass.Numbered.refers {frozen : List Slab} {id : Nat} (h : Numbered frozen id passes)
    (hid : ∀ r ∈ a.slabs, r.id < id)
    (hg : (passes.foldl (fun a s => a.absorb s.store.current) a).Refers f g) :
    a.Refers f g ∨ ∃ s ∈ passes, f.slab = s.store.current.id ∧ s.store.arena.Refers f g := by
  induction h generalizing a with
  | nil => exact .inl hg
  | cons hstore _ ih =>
    rw [← hstore.1] at hid
    rcases ih (hstore.1 ▸ Arena.lt_of_mem_absorb hid) hg with hg | ⟨s, hs, hg⟩
    · rcases Arena.refers_absorb hid hg with hg | hg
      · exact .inl hg
      · exact .inr ⟨_, List.mem_cons_self, hg⟩
    · exact .inr ⟨s, List.mem_cons_of_mem _ hs, hg⟩

theorem Pass.Numbered.ids {frozen : List Slab} {id : Nat} (h : Numbered frozen id passes)
    (ha : a.slabs.map Slab.id = List.range id) :
    ∃ n, (passes.foldl (fun a s => a.absorb s.store.current) a).slabs.map Slab.id = List.range n := by
  induction h generalizing a with
  | nil => exact ⟨_, ha⟩
  | @cons id s _ hstore _ ih =>
    refine ih ((a.marks_absorb s.store.current).ids.trans ?_)
    rw [List.map_append, ha, List.range_succ, ← hstore.1]
    rfl

end

namespace Program

variable {config : Config} {files : List File}

/-- What is below the slab of a job is slab 0. -/
theorem IsJobEnd.frozen_eq (h : IsJobEnd config files s) : s.store.frozen = [(fileEnd config files).store.current] := by
  obtain ⟨id, shared, -, b, -, rfl⟩ := h
  have hgrows : Pass.Grows _ (jobEnd config files id shared b) :=
    (Check.moves_bodyAndNested config b).along (jobOpening config files id shared)
  exact hgrows.store.frozen

namespace Merges

variable {p : Program} {q r : Pool} {f : Handle q} {g : Handle r} (h : Merges config files passes p)

include h

theorem valid (hs : s ∈ fileEnd config files :: passes) : s.Valid := h.holds_ends (throughout_valid config files) s hs

theorem has_of_has (hs : s ∈ fileEnd config files :: passes) (hf : s.store.arena.Has f) : p.arena.Has f := by
  have hembeds := h.embeds_ends s hs
  cases q with
  | scope => exact hembeds.has hf
  | entity =>
    obtain ⟨x, hx⟩ := Option.isSome_iff_exists.mp hf
    obtain ⟨y, hy, -⟩ := hembeds.toExtends.entities f x hx
    exact Option.isSome_iff_exists.mpr ⟨y, hy⟩
  | type =>
    obtain ⟨τ, hτ⟩ := Option.isSome_iff_exists.mp hf
    exact Option.isSome_iff_exists.mpr ⟨τ, hembeds.toExtends.types f τ hτ⟩

/-- What is stored in the arena of a program was stored at file level, or by a job in its slab. -/
theorem refers (hg : p.arena.Refers f g) : (fileEnd config files).store.arena.Refers f g ∨
      ∃ s ∈ passes, f.slab = s.store.current.id ∧ s.store.arena.Refers f g :=
  h.numbered.refers (below_jobOpening config files Nat.one_pos) (h.arena ▸ hg)

theorem whole : p.arena.Whole where
  refers hg := by
    rcases h.refers hg with hg | ⟨s, hs, -, hg⟩
    · exact h.has_of_has List.mem_cons_self ((h.valid List.mem_cons_self).whole.refers hg)
    · exact h.has_of_has (List.mem_cons_of_mem _ hs) ((h.valid (List.mem_cons_of_mem _ hs)).whole.refers hg)
  children hg := by
    obtain ⟨-, c, hc, -⟩ := h.tree.children _ _ hg
    exact Option.isSome_iff_exists.mpr ⟨c, hc⟩
  invalid := h.has_of_has List.mem_cons_self (h.valid List.mem_cons_self).whole.invalid

theorem has_of_note (hf : p.notes.Refers f) : p.arena.Has f := by
  have hpass {s : Pass} (hs : s ∈ fileEnd config files :: passes) (hf : s.notes.Refers f) : p.arena.Has f :=
    h.has_of_has hs ((h.valid hs).has_of_note hf)
  cases hf with
  | type hq =>
    obtain ⟨s, hs, hmem⟩ := h.exists_entry Annotations.types (fun _ _ => rfl) hq
    exact hpass hs (.type hmem)
  | definition hq =>
    obtain ⟨s, hs, hmem⟩ := h.exists_entry Annotations.definitions (fun _ _ => rfl) hq
    exact hpass hs (.definition hmem)
  | use hq =>
    obtain ⟨s, hs, hmem⟩ := h.exists_entry Annotations.uses (fun _ _ => rfl) hq
    exact hpass hs (.use hmem)
  | scope hq =>
    obtain ⟨s, hs, hmem⟩ := h.exists_entry Annotations.scopes (fun _ _ => rfl) hq
    exact hpass hs (.scope hmem)

/-- A job stores no handle of the slab of another one. -/
theorem slab_eq (hg : p.arena.Refers f g) : g.slab = 0 ∨ g.slab = f.slab := by
  obtain ⟨hzero, hnil⟩ := slabs_fileEnd config files
  rcases h.refers hg with hg | ⟨s, hs, hslab, hg⟩
  · have hmem := ((h.valid List.mem_cons_self).whole.refers hg).mem_ids
    rw [Store.arena, hnil] at hmem
    exact .inl ((List.mem_singleton.mp hmem).trans hzero)
  · have hmem := ((h.valid (List.mem_cons_of_mem _ hs)).whole.refers hg).mem_ids
    rw [Store.arena, (h.ends s hs).frozen_eq] at hmem
    rcases List.mem_cons.mp hmem with heq | hmem
    · exact .inr (heq.trans hslab.symm)
    · exact .inl ((List.mem_singleton.mp hmem).trans hzero)

theorem inBounds : p.InBounds where
  stored f hf := by
    have hfile := h.valid List.mem_cons_self
    cases hf with
    | arena hg => exact h.whole.refers hg
    | child hg => exact h.whole.children hg
    | note hf => exact h.has_of_note hf
    | file hq =>
      rw [h.tables.1] at hq
      exact h.has_of_has List.mem_cons_self (hfile.files _ hq)
    | importName he =>
      rw [h.tables.2] at he
      exact h.has_of_has List.mem_cons_self (hfile.imports _ he)
  reads := by
    obtain ⟨hzero, hnil⟩ := slabs_fileEnd config files
    have hstart : (fileEnd config files).store.arena.slabs.map Slab.id = List.range 1 := by
      rw [Store.arena, hnil, List.map_singleton, hzero]
      rfl
    obtain ⟨n, hids⟩ := h.numbered.ids hstart
    rw [← h.arena] at hids
    exact h.whole.inBounds fun _ _ => Arena.getElem?_of_slab? hids
  apart _ _ hg := h.slab_eq hg
  children f g hg := by
    -- a child stores its parent
    obtain ⟨-, c, hc, hparent⟩ := h.tree.children f g hg
    exact h.slab_eq (.scope hc (.parent hparent))

end Merges

end Program

end Statics
