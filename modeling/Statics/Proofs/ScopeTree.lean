import Statics.Proofs.Allocation
import Statics.Proofs.Validity.Programs

/-!
# The tree of scopes

Every scope but the global one has an older parent, and is listed once among the children of its parent unless that is
the global scope, which lists none. While a slab is being written, a scope under a frozen parent is not listed yet but
recorded. `Store.childrenOf` puts the two together, so that one invariant (`Arena.Tree`) serves the slabs of a pass
and the arena of a program.

It follows that the chain of a scope is the whole way out of it, and that looking a name up finds the innermost scope
that binds it (`Arena.Tree.lookup_eq_iff`).
-/

namespace Statics

/-! ## Trees -/

namespace Arena

/-- The scopes of an arena are a tree in which `children` are those of a scope, and each binds entities under their own
names. -/
structure Tree (a : Arena) (children : ScopeId → List ScopeId) : Prop where
  root : ∃ c, a.scope? .global = some c ∧ c.parent = none ∧ c.kind = .global
  inner : ∀ h c, a.scope? h = some c → h ≠ .global →
    c.kind ≠ .global ∧ ∃ p, c.parent = some p ∧ a.Has p ∧ p.before h
  listed : ∀ h c p, a.scope? h = some c → c.parent = some p → p ≠ .global → (children p).count h = 1
  children : ∀ p, ∀ h ∈ children p, p ≠ .global ∧ ∃ c, a.scope? h = some c ∧ c.parent = some p
  bound : ∀ h c, a.scope? h = some c → ∀ q ∈ c.bindings.entries,
    q.1 ≠ discard ∧ ∃ x, a.entity? q.2 = some x ∧ x.token.text = q.1
  distinct : ∀ h c, a.scope? h = some c → c.bindings.names.Nodup

/-- What a name stands for in a scope: the binding of the first scope on the way out that has the name. -/
inductive Finds (a : Arena) (name : String) : ScopeId → Option (EntityId × ScopeId) → Prop where
  | here {f : ScopeId} {e : EntityId} : a.lookupLocal f name = some e → Finds a name f (some (e, f))
  | out {f p : ScopeId} {r : Option (EntityId × ScopeId)} : a.lookupLocal f name = none →
    (a.scope f).parent = some p → Finds a name p r → Finds a name f r
  | nowhere {f : ScopeId} : a.lookupLocal f name = none → (a.scope f).parent = none → Finds a name f none

variable {a b : Arena} {children : ScopeId → List ScopeId} {name : String} {f : ScopeId}

theorem Finds.unique {r r' : Option (EntityId × ScopeId)} (h : a.Finds name f r) (h' : a.Finds name f r') : r = r' := by
  induction h with
  | here hlocal =>
    cases h' with
    | here hlocal' =>
      rw [hlocal] at hlocal'
      cases hlocal'
      rfl
    | out hnone => simp [hlocal] at hnone
    | nowhere hnone => simp [hlocal] at hnone
  | out hnone hparent _ ih =>
    cases h' with
    | here hlocal => simp [hnone] at hlocal
    | out _ hparent' hrest =>
      rw [hparent] at hparent'
      cases hparent'
      exact ih hrest
    | nowhere _ hparent' => simp [hparent] at hparent'
  | nowhere hnone hparent =>
    cases h' with
    | here hlocal => simp [hnone] at hlocal
    | out _ hparent' => simp [hparent] at hparent'
    | nowhere => rfl

/-- Going through the scopes on the way out finds what a name stands for. -/
theorem Walk.finds {way : List ScopeId} (h : a.Walk f way) (name : String) :
    a.Finds name f (way.findSome? fun s => (a.lookupLocal s name).map fun e => (e, s)) := by
  induction h with
  | @last f hparent =>
    cases hlocal : a.lookupLocal f name with
    | none => simpa [hlocal] using Finds.nowhere hlocal hparent
    | some e => simpa [hlocal] using Finds.here hlocal
  | @out f p rest hparent _ ih =>
    cases hlocal : a.lookupLocal f name with
    | none => simpa [hlocal] using Finds.out hlocal hparent ih
    | some e => simpa [hlocal] using Finds.here hlocal

namespace Tree

variable (h : a.Tree children)

include h

/-- The way out of a scope goes over older ones, to the global scope. -/
theorem exists_walk (hf : (a.scope? f).isSome) :
    ∃ way, a.Walk f way ∧ way.getLast? = some .global ∧ way.length ≤ a.scopeRank f + 1 := by
  -- the induction is on the number of older scopes
  generalize hn : a.scopeRank f = n
  induction n using Nat.strong_induction_on generalizing f with
  | _ n ih =>
    obtain ⟨c, hc⟩ := Option.isSome_iff_exists.mp hf
    by_cases hglobal : f = .global
    · obtain ⟨d, hd, hparent, -⟩ := h.root
      rw [hglobal]
      refine ⟨[.global], .last ?_, rfl, Nat.le_add_left ..⟩
      rw [scope_eq hd, hparent]
    · obtain ⟨-, p, hparent, hp, hbefore⟩ := h.inner f c hc hglobal
      have hlt := scopeRank_lt hp hbefore
      rw [hn] at hlt
      obtain ⟨way, hwalk, hlast, hlength⟩ := ih _ hlt hp rfl
      refine ⟨f :: way, .out (by rw [scope_eq hc, hparent]) hwalk, ?_, ?_⟩
      · cases way with
        | nil => cases hwalk
        | cons g rest => exact hlast
      · rw [List.length_cons]
        omega

/-- The chain of a scope is the whole way out of it. -/
theorem walk_chain (hf : (a.scope? f).isSome) : a.Walk f (a.chain f) ∧ (a.chain f).getLast? = some .global := by
  obtain ⟨way, hwalk, hlast, hlength⟩ := h.exists_walk hf
  have heq : a.chain f = way := hwalk.chainWithin_eq (Nat.le_trans hlength (scopeRank_lt_scopeCount hf))
  rw [heq]
  exact ⟨hwalk, hlast⟩

/-- Looking a name up finds the binding of the first scope on the way out that has it. -/
theorem lookup_eq_iff (hf : (a.scope? f).isSome) (r : Option (EntityId × ScopeId)) :
    a.lookup f name = r ↔ a.Finds name f r := by
  have hfinds := (h.walk_chain hf).1.finds name
  exact ⟨fun heq => heq ▸ hfinds, fun hr => hfinds.unique hr⟩

theorem children_global : children .global = [] := by
  refine List.eq_nil_iff_forall_not_mem.mpr fun g hg => ?_
  exact (h.children .global g hg).1 rfl

/-- Only the kind of the global scope is global. -/
theorem kind_eq_global_iff {c : Scope} (hc : a.scope? f = some c) : c.kind = .global ↔ f = .global := by
  refine ⟨fun hkind => ?_, fun heq => ?_⟩
  · by_contra hne
    exact (h.inner f c hc hne).1 hkind
  · obtain ⟨d, hd, -, hkind⟩ := h.root
    rw [heq, hd] at hc
    cases hc
    exact hkind

/-- A scope with a parent is not the global one, so its parent is there and older. -/
theorem parent {c : Scope} {p : ScopeId} (hc : a.scope? f = some c) (hp : c.parent = some p) :
    a.Has p ∧ p.before f := by
  have hne : f ≠ .global := by
    rintro rfl
    obtain ⟨d, hd, hnone, -⟩ := h.root
    simp_all
  obtain ⟨-, p', hp', hhas, hbefore⟩ := h.inner f c hc hne
  cases hp.symm.trans hp'
  exact ⟨hhas, hbefore⟩

/-- What was a tree is one if scopes, names and children stay. -/
theorem congr {children' : ScopeId → List ScopeId} (hscope : ∀ f, b.scope? f = a.scope? f)
    (hentity : ∀ e x, a.entity? e = some x → ∃ y, b.entity? e = some y ∧ y.token = x.token)
    (hchildren : ∀ p, children' p = children p) : b.Tree children' := by
  obtain ⟨hroot, hinner, hlisted, hchild, hbound, hdistinct⟩ := h
  constructor <;> grind [Has]

end Tree

end Arena

/-! ## The scopes of a pass -/

namespace Store

/-- The children of a scope: those it lists, and those opened under it that it will list. -/
def childrenOf (s : Store) (p : ScopeId) : List ScopeId :=
  (s.arena.scope p).children ++ (s.current.adopted.filter fun q => q.1 == p).map Prod.snd

/-- The scopes of a store are a tree. What is recorded for later is about frozen parents of local scopes, and what
frozen scopes list is frozen. -/
structure Treed (s : Store) : Prop where
  tree : s.arena.Tree s.childrenOf
  below : ∀ slab ∈ s.frozen, slab.id < s.current.id
  adopted : ∀ q ∈ s.current.adopted, q.1.slab ≠ s.current.id ∧ q.2.slab = s.current.id
  frozen : ∀ p : ScopeId, p.slab ≠ s.current.id → ∀ f ∈ (s.arena.scope p).children, f.slab ≠ s.current.id

variable {s t : Store} {parent : ScopeId} {kind : ScopeKind} {f p : ScopeId} {e : EntityId}

theorem count_childrenOf_openScope (hs : s.Treed) (hparent : s.arena.Has parent) :
    ((s.openScope parent kind).2.childrenOf p).count f =
      (s.childrenOf p).count f + if p = parent ∧ p ≠ .global ∧ f = (s.openScope parent kind).1 then 1 else 0 := by
  obtain ⟨c, hc⟩ := Option.isSome_iff_exists.mp hparent
  have hglobal := hs.tree.kind_eq_global_iff hc
  have hfresh := s.scope?_fresh parent kind
  have hread : ((s.newScope (some parent) kind).2.arena.scope parent) = c := by
    grind [Arena.scope_eq, scope?_newScope, openScope_fst, newScope]
  have hchildren : ((s.openScope parent kind).2.arena.scope p).children = (s.arena.scope p).children ++
      if p = parent ∧ p.slab = s.current.id ∧ p ≠ .global then [(s.openScope parent kind).1] else [] := by
    cases hp : s.arena.scope? p <;> grind [Arena.scope, offspring, Scope.blank, isLocal]
  have hadopted : (s.openScope parent kind).2.current.adopted = s.current.adopted ++
      if parent.slab ≠ s.current.id ∧ parent ≠ .global then [(parent, (s.openScope parent kind).1)] else [] := by
    grind [openScope, newScope, addChild, isLocal]
  rw [childrenOf, childrenOf, hchildren, hadopted]
  grind

/-- A new scope is younger than all others. -/
theorem Treed.before_new (hs : s.Treed) (hf : s.arena.Has f) : f.before (s.openScope parent kind).1 := by
  obtain ⟨c, hc⟩ := Option.isSome_iff_exists.mp hf
  rw [openScope_fst]
  rw [scope?_arena] at hc
  split at hc
  case isTrue hslab =>
    exact .inr ⟨hslab.symm, (Array.getElem?_eq_some_iff.mp hc).1⟩
  case isFalse =>
    obtain ⟨slab, hslab, -⟩ := Option.bind_eq_some_iff.mp hc
    have hid := List.find?_some hslab
    rw [beq_iff_eq] at hid
    have hlt := hs.below slab (List.mem_of_find?_eq_some hslab)
    exact .inl (hid ▸ hlt)

theorem Treed.openScope (hs : s.Treed) (hparent : s.arena.Has parent) (hkind : kind ≠ .global) :
    (s.openScope parent kind).2.Treed := by
  have hcount (p f : ScopeId) : ((s.openScope parent kind).2.childrenOf p).count f = (s.childrenOf p).count f +
      if p = parent ∧ p ≠ .global ∧ f = (s.openScope parent kind).1 then 1 else 0 :=
        count_childrenOf_openScope hs hparent
  have hnew : parent.before (s.openScope parent kind).1 := hs.before_new hparent
  obtain ⟨⟨hroot, hinner, hlisted, hchildren, hbound, hdistinct⟩, hbelow, hadopted, hfrozen⟩ := hs
  have hnone (p : ScopeId) : (s.childrenOf p).count (s.openScope parent kind).1 = 0 := by
    grind [List.count_eq_zero]
  -- what is read afterwards: the new scope, or an old one with its parent, kind and bindings
  have hread {g : ScopeId} {c : Scope} (hc : (s.openScope parent kind).2.arena.scope? g = some c) :
      (g = (s.openScope parent kind).1 ∧ c.parent = some parent ∧ c.kind = kind ∧ c.bindings = .empty) ∨
        ∃ d, s.arena.scope? g = some d ∧ c.parent = d.parent ∧ c.kind = d.kind ∧ c.bindings = d.bindings := by
    grind [Option.map_eq_some_iff]
  refine ⟨⟨?_, ?_, ?_, fun p g hg => ?_, ?_, ?_⟩, ?_, ?_, ?_⟩
  · grind
  · grind [Arena.Has]
  · grind
  · have hpos := List.count_pos_iff.mpr hg
    have hold : 0 < (s.childrenOf p).count g → g ∈ s.childrenOf p := List.count_pos_iff.mp
    grind
  · grind [Bindings.empty]
  · grind [Bindings.empty, Bindings.names]
  · grind
  · intro q hq
    rw [id_openScope]
    rcases s.adopted_openScope parent kind hq with hq | ⟨rfl, hslab⟩
    · exact hadopted q hq
    · exact ⟨hslab, by rw [openScope_fst]⟩
  · intro p hp g hg
    rw [id_openScope] at hp ⊢
    have hsame : (s.openScope parent kind).2.arena.scope? p = s.arena.scope? p := by
      rw [scope?_arena, scope?_arena, id_openScope, if_neg (Ne.symm hp), if_neg (Ne.symm hp), Store.below, Store.below,
        frozen_openScope]
    exact hfrozen p hp g (by rwa [Arena.scope, hsame] at hg)

theorem Treed.congr (hs : s.Treed) (hid : t.current.id = s.current.id) (hfrozen : t.frozen = s.frozen)
    (hscope : ∀ f, t.arena.scope? f = s.arena.scope? f)
    (hentity : ∀ e x, s.arena.entity? e = some x → ∃ y, t.arena.entity? e = some y ∧ y.token = x.token)
    (hadopted : t.current.adopted = s.current.adopted) : t.Treed where
  tree :=
    hs.tree.congr hscope hentity fun p => by rw [childrenOf, childrenOf, Arena.scope, Arena.scope, hscope, hadopted]
  below := by simpa [hid, hfrozen] using hs.below
  adopted := by simpa [hid, hadopted] using hs.adopted
  frozen := by simpa [hid, Arena.scope, hscope] using hs.frozen

theorem Treed.bind (hs : s.Treed) (he : s.arena.Has e) : (s.bind f e).2.Treed := by
  have hchildren (p : ScopeId) : ((s.bind f e).2.arena.scope p).children = (s.arena.scope p).children := by
    cases hp : s.arena.scope? p <;> grind [Arena.scope, Scope.blank]
  have hchildrenOf (p : ScopeId) : (s.bind f e).2.childrenOf p = s.childrenOf p := by
    grind [childrenOf]
  obtain ⟨x, hx⟩ := Option.isSome_iff_exists.mp he
  have hname := Arena.entity_eq hx
  obtain ⟨⟨hroot, hinner, hlisted, hchild, hbound, hdistinct⟩, hbelow, hadopted, hfrozen⟩ := hs
  -- of the scopes, only the bindings of one change
  have hread {g : ScopeId} {c : Scope} (hc : (s.bind f e).2.arena.scope? g = some c) :
      ∃ d, s.arena.scope? g = some d ∧ c.parent = d.parent ∧ c.kind = d.kind ∧ (c.bindings = d.bindings ∨
        s.Takes f e ∧ g = f ∧ c.bindings = d.bindings.insert (s.arena.entity e).name e) := by
    grind [Option.map_eq_some_iff]
  refine ⟨⟨?_, ?_, ?_, ?_, ?_, fun g c hc => ?_⟩, ?_, ?_, ?_⟩
  · grind
  · grind [Arena.Has]
  · grind
  · grind
  · intro g c hc q hq
    have hkept {q : String × EntityId} {y : Entity} (hy : s.arena.entity? q.2 = some y) (hq : y.token.text = q.1) :
        ∃ z, (s.bind f e).2.arena.entity? q.2 = some z ∧ z.token.text = q.1 := by
      grind
    obtain ⟨d, hd, -, -, heq | ⟨htakes, rfl, heq⟩⟩ := hread hc <;> rw [heq] at hq
    · obtain ⟨hne, y, hy, hq⟩ := hbound g d hd q hq
      exact ⟨hne, hkept hy hq⟩
    · rcases List.mem_append.mp hq with hq | hq
      · obtain ⟨hne, y, hy, hq⟩ := hbound g d hd q hq
        exact ⟨hne, hkept hy hq⟩
      · obtain rfl := List.mem_singleton.mp hq
        exact ⟨htakes.1, hkept hx (by rw [hname]; rfl)⟩
  · obtain ⟨d, hd, -, -, heq | ⟨htakes, rfl, heq⟩⟩ := hread hc
    · exact heq ▸ hdistinct g d hd
    · have hnone := htakes.2.1
      rw [Arena.lookupLocal, Arena.scope_eq hd] at hnone
      rw [heq, Bindings.names_insert]
      refine List.nodup_append.mpr ⟨hdistinct g d hd, List.nodup_singleton _, ?_⟩
      grind [Bindings.get?_isSome_iff]
  · grind
  · grind
  · grind

/-- Every elementary change keeps the tree. -/
theorem Treed.step (hs : s.Treed) (h : s.Step t) : t.Treed := by
  have htokens {t : Store} (hgrows : s.Grows t) (e : EntityId) (x : Entity) (hx : s.arena.entity? e = some x) :
      ∃ y, t.arena.entity? e = some y ∧ y.token = x.token := by
    obtain ⟨y, hy, hkeeps⟩ := hgrows.toExtends.entities e x hx
    exact ⟨y, hy, hkeeps.token⟩
  cases h with
  | newType => exact hs.congr rfl rfl (s.scope?_newType _) (htokens (.newType ..)) rfl
  | newEntity => exact hs.congr rfl rfl (s.scope?_newEntity _) (htokens (.newEntity ..)) rfl
  | openScope hparent hkind => exact hs.openScope hparent hkind
  | bind _ he => exact hs.bind he
  | modifyEntity _ hkeeps =>
    exact hs.congr (by simp) (by simp) (s.scope?_modifyEntity _ _) (htokens (.modifyEntity s _ hkeeps)) (by grind)
  | modifyType =>
    exact hs.congr (by simp) (by simp) (s.scope?_modifyType _ _) (by grind) (by grind)
  | markUsed => exact hs.congr (by simp) (by simp) (s.scope?_markUsed _) (htokens (.markUsed ..)) (by grind)

end Store

end Statics
