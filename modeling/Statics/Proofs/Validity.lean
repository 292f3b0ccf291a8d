import Statics.Proofs.Captures.Homes
import Statics.Proofs.Constants.Operands
import Statics.Proofs.Containment.Layout

/-!
# Valid states

A state of a pass is valid if everything in it that refers to something else refers to what is there, if no untyped
type and no tuple is more than the type of an operand, and if every constant has a value that its type can have.

These three go together. Where an enum is being declared, its members have a type without a base, so that their values
can only be said to suit it because the declaration is known to be one of an enum. That it stays known is a matter of
handles that are not reused.

`Pass.Leads` says that one state comes from another by elementary changes, through valid states alone. `Check.Yields`
says this of the runs of a step, together with what holds of its result.
-/

namespace Statics

/-! ## What a handle refers to -/

namespace Arena

/-- Something is allocated at a handle. -/
def Has (a : Arena) : {pool : Pool} → Handle pool → Prop
  | .scope, h => (a.scope? h).isSome
  | .entity, h => (a.entity? h).isSome
  | .type, h => (a.type? h).isSome

instance (a : Arena) : {pool : Pool} → (h : Handle pool) → Decidable (a.Has h)
  | .scope, h => inferInstanceAs (Decidable ((a.scope? h).isSome = true))
  | .entity, h => inferInstanceAs (Decidable ((a.entity? h).isSome = true))
  | .type, h => inferInstanceAs (Decidable ((a.type? h).isSome = true))

end Arena

/-- Types that something can be declared with: neither untyped nor tuples. -/
def Ty.isSettled : Ty → Bool
  | .basic k => !k.isUntyped
  | .tuple _ => false
  | _ => true

/-- Types with a declared name. -/
def Ty.isName : Ty → Bool
  | .named .. => true
  | _ => false

/-- A type is allocated, and something can be declared with it. -/
def Arena.Settled (a : Arena) (t : TypeId) : Prop := ∃ τ, a.type? t = some τ ∧ τ.isSettled

/-- A type that something can be declared with, other than a name. -/
def Arena.Unnamed (a : Arena) (t : TypeId) : Prop := ∃ τ, a.type? t = some τ ∧ τ.isSettled ∧ τ.isName = false

/-- A constant is a value of a basic kind: of the sort of the kind, and in its range. -/
def Constant.Fits (k : Kind) : Constant → Prop
  | .bool _ => k.isBoolean
  | .int v => k.isInteger ∧ k.holds v.toInt
  | .float _ => k.isFloat
  | .str _ => k.isString

/-- A constant is a value of a type. Enums have integers as values, and so does a name that is being declared as one. -/
def Arena.Suits (a : Arena) (t : TypeId) (v : Constant) : Prop :=
  match a.base t with
  | .basic k => v.Fits k
  | .enum .. | .named .. => ∃ i, v = .int i
  | _ => False

/-- Whether an expression is an enum, perhaps in parentheses. -/
def Expr.isEnum : Expr → Bool
  | .enum .. => true
  | .paren _ inner => inner.isEnum
  | _ => false

/-- The scope that an entity has as part of what is known about it. -/
def EntityKind.scope? : EntityKind → Option ScopeId
  | .procedure info => info.scope
  | .importName info => some info.scope
  | _ => none

/-- The truth values and `nil`, which alone are declared with an untyped type. -/
def Universe.literals : List EntityId := ["true", "false", "nil"].filterMap (store.arena.lookupLocal .global)

/-- Whether an entity is `nil` or the implicit value, which no program declares. -/
def EntityKind.isInnate : EntityKind → Bool
  | .nil | .implicitValue => true
  | _ => false

theorem EntityKind.isInnate_eq {k k' : EntityKind} (h : k.name = k'.name) : k.isInnate = k'.isInnate := by
  cases k <;> cases k' <;> simp [EntityKind.name, isInnate] at h ⊢

/-- The types of `nil` and of the implicit value. -/
def Universe.innateTypes : List TypeId :=
  ["nil", "context"].filterMap fun name => (store.arena.lookupLocal .global name).bind fun e =>
    (store.arena.entity e).type

/-- What the truth values and `nil` are. -/
def Entity.IsLiteral (x : Entity) : Prop :=
  x.kind = .nil ∧ x.type = some (.basic .untypedNil) ∨
    ∃ b, x.kind = .constant (some (.bool b)) ∧ x.type = some (.basic .untypedBool)

/-- What validity depends on: the slabs, and the declarations that wait or waited for a first use. -/
structure View where
  store : Store
  decls : List (EntityId × Declaration)

/-- What validity depends on in a state. -/
def Pass.view (s : Pass) : View := ⟨s.store, s.decls⟩

instance : Coe Pass View := ⟨Pass.view⟩

namespace View

variable (v : View)

/-- All slabs, for reading. -/
def arena : Arena := v.store.arena

/-- Something is allocated at a handle. -/
def Has {pool : Pool} (h : Handle pool) : Prop := v.arena.Has h

/-- Something can be declared with a type. -/
def Settled (t : TypeId) : Prop := v.arena.Settled t

/-- An entity was declared as the name of an enum. -/
def NamesEnum (e : EntityId) : Prop := ∃ scope x, (e, Declaration.type scope x) ∈ v.decls ∧ x.isEnum

/-- A constant is a value of a type. If that is a name of this pass which is being declared, then as an enum. -/
structure Suits (t : TypeId) (c : Constant) : Prop where
  fits : v.arena.Suits t c
  opened : t.slab = v.store.current.id → ∀ name e, v.arena.type? t = some (.named name none e) → v.NamesEnum e

end View

/-! ## Valid parts of a state -/

section

variable (v : View)

/-- What a scope refers to is there. -/
structure Scope.Valid (c : Scope) : Prop where
  parent : ∀ p, c.parent = some p → v.Has p
  children : ∀ p ∈ c.children, v.Has p
  bound : ∀ e ∈ c.bindings.entities, v.Has e

/-- What an entity refers to is there. Its type is settled, unless it is one of the literals, a constant has a value
of its type, and what is innate has its type from the universe. -/
structure Entity.Valid (e : EntityId) (x : Entity) : Prop where
  home : ∀ h, x.home = some h → v.Has h
  through : ∀ o, x.through = some o → v.Has o
  scope : ∀ h, x.kind.scope? = some h → v.Has h
  type : ∀ t, x.type = some t → e ∉ Universe.literals → v.Settled t
  value : ∀ c, x.kind = .constant (some c) → ∃ t, x.type = some t ∧ v.Suits t c
  innate : x.kind.isInnate → ∃ t ∈ Universe.innateTypes, x.type = some t

/-- What is innate keeps its type. -/
theorem Entity.Keeps.innate {x y : Entity} (h : x.Keeps y)
    (hx : x.kind.isInnate → ∃ t ∈ Universe.innateTypes, x.type = some t) (hy : y.kind.isInnate) :
    ∃ t ∈ Universe.innateTypes, y.type = some t := by
  obtain ⟨t, ht, htype⟩ := hx (EntityKind.isInnate_eq h.sort ▸ hy)
  exact ⟨t, ht, h.type t htype⟩

/-- A field of a record or a member of an enum. -/
structure View.IsField (f : EntityId) : Prop where
  has : v.Has f
  not_literal : f ∉ Universe.literals
  typed : (v.arena.entity f).type.isSome

/-- The parts of a type are there and settled, and a name has a base that is no name. -/
def Ty.Valid : Ty → Prop
  | .basic _ => True
  | .named _ base e => v.Has e ∧ ∀ b, base = some b → v.arena.Unnamed b
  | .pointer t | .array _ t | .slice t => v.Settled t
  | .record _ fields => ∀ f ∈ fields, v.IsField f
  | .enum base members => v.Settled base ∧ ∀ m ∈ members, v.IsField m
  | .tuple items => ∀ t ∈ items, v.Settled t
  | .proc params results => (∀ t ∈ params, v.Settled t) ∧ ∀ t ∈ results, v.Settled t

/-- What is remembered about an expression: places and types are settled, and exactly the constants have a value,
which is one of their type. -/
structure Note.Valid (n : Note) : Prop where
  has : v.Has n.type
  settled : n.mode = .var ∨ n.mode = .type → v.Settled n.type
  constant : n.mode = .constant ↔ n.constant?.isSome
  suits : ∀ c, n.constant? = some c → v.Suits n.type c

theorem Note.Valid.mode_of_constant? {v : View} {n : Note} (hn : n.Valid v) {c : Constant} (hc : n.constant? = some c) :
    n.mode = .constant := hn.constant.mpr (by simp [hc])

/-- An operand of which valid things are remembered. -/
abbrev Operand.Valid (x : Operand) : Prop := x.note.Valid v

/-- What a declaration refers to is there. -/
structure Declaration.Valid (d : Declaration) : Prop where
  scope : v.Has d.scope
  entities : ∀ e ∈ d.variables, v.Has e

/-- What a body refers to is there. -/
structure Body.Valid (b : Body) : Prop where
  entity : v.Has b.entity
  scope : v.Has b.scope
  type : v.Has b.type

/-- What a context refers to is there. -/
structure Context.Valid (ctx : Context) : Prop where
  scope : v.Has ctx.scope
  signature : ∀ t, ctx.signature = some t → v.Has t

/-- What slabs refer to is there. The basic types, the global scope and the literals are at their places. -/
structure View.Intact : Prop where
  basics : v.arena.HasBasics
  global : v.Has ScopeId.global
  literals : ∀ e ∈ Universe.literals, ∃ x, v.arena.entity? e = some x ∧ x.IsLiteral
  scopes : ∀ h c, v.arena.scope? h = some c → c.Valid v
  entities : ∀ e x, v.arena.entity? e = some x → x.Valid v e
  types : ∀ u τ, v.arena.type? u = some τ → τ.Valid v
  adopted : ∀ p ∈ v.store.current.adopted, v.Has p.1 ∧ v.Has p.2
  touched : ∀ e ∈ v.store.current.touched, v.Has e

end

/-- A state in which everything is valid. A name is declared as one type. -/
structure Pass.Valid (s : Pass) : Prop where
  intact : s.view.Intact
  noted : ∀ p ∈ s.notes.types.entries, p.2.Valid s
  defined : ∀ p ∈ s.notes.definitions.entries, s.view.Has p.2
  referred : ∀ p ∈ s.notes.uses.entries, s.view.Has p.2
  opened : ∀ p ∈ s.notes.scopes.entries, s.view.Has p.2
  decls : ∀ p ∈ s.decls, s.view.Has p.1 ∧ p.2.Valid s
  unique : ∀ e scope x scope' x', (e, Declaration.type scope x) ∈ s.decls → (e, Declaration.type scope' x') ∈ s.decls →
    x = x'
  queue : ∀ b ∈ s.queue, b.Valid s
  foreigns : ∀ p ∈ s.foreigns, s.view.Has p.2
  files : ∀ p ∈ s.files, s.view.Has p.2
  imports : ∀ e ∈ s.imports, s.view.Has e

/-! ## Elementary changes -/

/-- How a type that was allocated without all of its parts gets them. -/
inductive Ty.Completes : Ty → Ty → Prop where
  | named (name : String) (base : TypeId) (e : EntityId) : Completes (.named name none e) (.named name (some base) e)
  | enum (base : TypeId) (old members : List EntityId) : Completes (.enum base old) (.enum base members)

/-- An elementary change of a store. What it is made at is there. -/
inductive Store.Step (s : Store) : Store → Prop where
  | newType {τ : Ty} {decls : List (EntityId × Declaration)} (h : τ.Valid ⟨s, decls⟩) : Step s (s.newType τ).2
  | newEntity (x : Entity) : Step s (s.newEntity x).2
  | openScope {parent : ScopeId} {kind : ScopeKind} (h : s.arena.Has parent) (hkind : kind ≠ .global) :
    Step s (s.openScope parent kind).2
  | bind {h : ScopeId} {e : EntityId} (hh : s.arena.Has h) (he : s.arena.Has e) : Step s (s.bind h e).2
  | modifyEntity {e : EntityId} {f : Entity → Entity} (he : s.arena.Has e) (h : ∀ x, Entity.Keeps x (f x)) :
    Step s (s.modifyEntity e f)
  | modifyType {t : TypeId} {f : Ty → Ty} (ht : s.arena.Has t)
    (h : ∀ τ, s.arena.type? t = some τ → τ.Completes (f τ)) : Step s (s.modifyType t f)
  | markUsed {e : EntityId} (he : s.arena.Has e) : Step s (s.markUsed e)

/-- An elementary change of a pass. -/
inductive Pass.Step (s : Pass) : Pass → Prop where
  | store {store : Store} : s.store.Step store → Step s { s with store := store }
  | annotate (id : NodeId) (note : Note) :
    Step s { s with notes := { s.notes with types := s.notes.types.insert id note } }
  | define (id : NodeId) (e : EntityId) :
    Step s { s with notes := { s.notes with definitions := s.notes.definitions.insert id e } }
  | refer (id : NodeId) (e : EntityId) :
    Step s { s with notes := { s.notes with uses := s.notes.uses.insert id e } }
  | noteScope (id : NodeId) (scope : ScopeId) :
    Step s { s with notes := { s.notes with scopes := s.notes.scopes.insert id scope } }
  | await (p : EntityId × Declaration) : Step s { s with decls := p :: s.decls }
  | record (m : Milestone) : Step s { s with journal := m :: s.journal }
  | hoist (id : NodeId) : Step s { s with hoisted := id :: s.hoisted }
  | enqueue (b : Body) : Step s { s with queue := s.queue ++ [b] }
  | dequeue : Step s { s with queue := [] }
  | claimSymbol (p : String × EntityId) : Step s { s with foreigns := p :: s.foreigns }
  | claimLink (p : String × Pos) : Step s { s with links := s.links ++ [p] }
  | openFile (path : String) (scope : ScopeId) : Step s { s with files := insertFile s.files path scope }
  | addImport (e : EntityId) : Step s { s with imports := s.imports ++ [e] }
  | report (d : Diagnostic) : Step s { s with collector := (s.collector.report d).1 }
  | warn (d : Diagnostic) : Step s { s with collector := s.collector.warn d }

/-- Some elementary changes lead from one state to another, through states that all satisfy `P`. -/
inductive Pass.Through (P : Pass → Prop) : Pass → Pass → Prop where
  | here {s : Pass} : P s → Through P s s
  | step {s t u : Pass} : Through P s t → t.Step u → P u → Through P s u

namespace Pass.Through

variable {P Q : Pass → Prop} {s t u : Pass}

theorem last (h : Through P s t) : P t := by
  cases h with
  | here hs => exact hs
  | step _ _ ht => exact ht

theorem trans (h : Through P s t) (h' : Through P t u) : Through P s u := by
  induction h' with
  | here => exact h
  | step _ hstep hu ih => exact .step ih hstep hu

theorem imp (h : Through P s t) (hPQ : ∀ s, P s → Q s) : Through Q s t := by
  induction h with
  | here hs => exact .here (hPQ _ hs)
  | step _ hstep hu ih => exact .step ih hstep (hPQ _ hu)

end Pass.Through

/-! ## What stays right -/

/-- What was right is right: what was there is there, what had a type has one, types stay settled or not and names or
not, and values still suit their types. -/
structure View.Refines (v w : View) : Prop where
  scopes : ∀ h : ScopeId, v.Has h → w.Has h
  entities : ∀ e : EntityId, v.Has e → w.Has e
  typed : ∀ e, (v.arena.entity e).type.isSome → (w.arena.entity e).type.isSome
  types : ∀ u τ, v.arena.type? u = some τ →
    ∃ τ', w.arena.type? u = some τ' ∧ τ'.isSettled = τ.isSettled ∧ τ'.isName = τ.isName
  suits : ∀ u c, v.Suits u c → w.Suits u c

namespace View.Refines

variable {v w z : View}

theorem refl (v : View) : v.Refines v :=
  ⟨fun _ h => h, fun _ h => h, fun _ h => h, fun _ τ h => ⟨τ, h, rfl, rfl⟩, fun _ _ h => h⟩

theorem trans (h : v.Refines w) (h' : w.Refines z) : v.Refines z where
  scopes f hf := h'.scopes f (h.scopes f hf)
  entities e he := h'.entities e (h.entities e he)
  typed e he := h'.typed e (h.typed e he)
  types u τ hτ := by
    obtain ⟨τ', hτ', hsettled, hname⟩ := h.types u τ hτ
    obtain ⟨τ'', hτ'', hsettled', hname'⟩ := h'.types u τ' hτ'
    exact ⟨τ'', hτ'', hsettled'.trans hsettled, hname'.trans hname⟩
  suits u c hc := h'.suits u c (h.suits u c hc)

variable (h : v.Refines w)

include h

theorem has {pool : Pool} {f : Handle pool} (hf : v.Has f) : w.Has f := by
  cases pool with
  | scope => exact h.scopes f hf
  | entity => exact h.entities f hf
  | type =>
    obtain ⟨τ, hτ⟩ := Option.isSome_iff_exists.mp hf
    obtain ⟨τ', hτ', -⟩ := h.types f τ hτ
    exact Option.isSome_iff_exists.mpr ⟨τ', hτ'⟩

theorem settled {t : TypeId} (ht : v.Settled t) : w.Settled t := by
  obtain ⟨τ, hτ, hsettled⟩ := ht
  obtain ⟨τ', hτ', heq, -⟩ := h.types t τ hτ
  exact ⟨τ', hτ', heq.trans hsettled⟩

theorem unnamed {t : TypeId} (ht : v.arena.Unnamed t) : w.arena.Unnamed t := by
  obtain ⟨τ, hτ, hsettled, hname⟩ := ht
  obtain ⟨τ', hτ', heq, heq'⟩ := h.types t τ hτ
  exact ⟨τ', hτ', heq.trans hsettled, heq'.trans hname⟩

theorem scope {c : Scope} (hc : c.Valid v) : c.Valid w :=
  ⟨fun p hp => h.has (hc.parent p hp), fun p hp => h.has (hc.children p hp), fun e he => h.has (hc.bound e he)⟩

theorem entity {e : EntityId} {x : Entity} (hx : x.Valid v e) : x.Valid w e where
  home f hf := h.has (hx.home f hf)
  through o ho := h.has (hx.through o ho)
  scope f hf := h.has (hx.scope f hf)
  type t ht he := h.settled (hx.type t ht he)
  value c hc := (hx.value c hc).imp fun _ ht => ⟨ht.1, h.suits _ c ht.2⟩
  innate := hx.innate

theorem isField {f : EntityId} (hf : v.IsField f) : w.IsField f := ⟨h.has hf.has, hf.not_literal, h.typed f hf.typed⟩

theorem ty {τ : Ty} (hτ : τ.Valid v) : τ.Valid w := by
  cases τ with
  | basic => trivial
  | named _ base e => exact ⟨h.has hτ.1, fun b hb => h.unnamed (hτ.2 b hb)⟩
  | pointer t => exact h.settled hτ
  | array _ t => exact h.settled hτ
  | slice t => exact h.settled hτ
  | record _ fields => exact fun f hf => h.isField (hτ f hf)
  | enum base members => exact ⟨h.settled hτ.1, fun m hm => h.isField (hτ.2 m hm)⟩
  | tuple items => exact fun t ht => h.settled (hτ t ht)
  | proc params results => exact ⟨fun t ht => h.settled (hτ.1 t ht), fun t ht => h.settled (hτ.2 t ht)⟩

theorem note {n : Note} (hn : n.Valid v) : n.Valid w :=
  ⟨h.has hn.has, fun hm => h.settled (hn.settled hm), hn.constant, fun c hc => h.suits _ c (hn.suits c hc)⟩

theorem declaration {d : Declaration} (hd : d.Valid v) : d.Valid w :=
  ⟨h.has hd.scope, fun e he => h.has (hd.entities e he)⟩

theorem body {b : Body} (hb : b.Valid v) : b.Valid w := ⟨h.has hb.entity, h.has hb.scope, h.has hb.type⟩

theorem context {ctx : Context} (hctx : ctx.Valid v) : ctx.Valid w :=
  ⟨h.has hctx.scope, fun t ht => h.has (hctx.signature t ht)⟩

end View.Refines

/-- One state leads to another: through valid states, what was there stays, and what was right stays right. -/
structure Pass.Leads (s t : Pass) : Prop where
  through : s.Through Pass.Valid t
  grows : s.Grows t
  refines : s.view.Refines t

namespace Pass.Leads

variable {s t u : Pass}

theorem valid (h : s.Leads t) : t.Valid := h.through.last

theorem refl (hs : s.Valid) : s.Leads s := ⟨.here hs, .refl s, .refl _⟩

theorem trans (h : s.Leads t) (h' : t.Leads u) : s.Leads u :=
  ⟨h.through.trans h'.through, h.grows.trans h'.grows, h.refines.trans h'.refines⟩

end Pass.Leads

/-! ## Runs -/

namespace Check

variable {α β : Type} {s : Pass} {x : Check α} {f : α → Check β} {P Q : α → Pass → Prop} {R : β → Pass → Prop}

/-- From a valid state, a step goes through valid states to one that it leads to, and its result has a property in the
state that it leaves. -/
def Yields (s : Pass) (x : Check α) (Q : α → Pass → Prop) : Prop :=
  s.Valid → s.Leads (x.after s) ∧ ∀ a t, x s = .ok a t → Q a t

theorem Yields.imp (h : Yields s x P) (hPQ : ∀ a t, s.Leads t → P a t → Q a t) : Yields s x Q := by
  intro hs
  obtain ⟨hleads, hgives⟩ := h hs
  refine ⟨hleads, fun a t hrun => ?_⟩
  rw [after_of_ok hrun] at hleads
  exact hPQ a t hleads (hgives a t hrun)

theorem Yields.of_valid (h : s.Valid → Yields s x Q) : Yields s x Q := fun hs => h hs hs

theorem yields_pure {a : α} (h : s.Valid → Q a s) : Yields s (pure a) Q := by
  intro hs
  refine ⟨.refl hs, fun b t hrun => ?_⟩
  cases hrun
  exact h hs

theorem Yields.bind (hx : Yields s x P) (hf : ∀ a t, s.Leads t → P a t → Yields t (f a) R) :
    Yields s (x >>= f) R := by
  intro hs
  obtain ⟨hleads, hgives⟩ := hx hs
  cases hrun : x s with
  | ok a t =>
    rw [after_of_ok hrun] at hleads
    obtain ⟨hleads', hgives'⟩ := hf a t hleads (hgives a t hrun) hleads.valid
    rw [after_bind hrun]
    refine ⟨hleads.trans hleads', fun b u hrun' => ?_⟩
    obtain ⟨a', t', ha, hb⟩ := bind_eq_ok.mp hrun'
    rw [hrun] at ha
    cases ha
    exact hgives' b u hb
  | error e t =>
    rw [after_of_error hrun] at hleads
    rw [after_bind_of_error hrun]
    refine ⟨hleads, fun b u hrun' => ?_⟩
    obtain ⟨a', t', ha, -⟩ := bind_eq_ok.mp hrun'
    rw [hrun] at ha
    cases ha

/-- The state may be looked at. -/
theorem yields_get {f : Pass → Check β} (h : s.Valid → Yields s (f s) R) : Yields s (get >>= f) R := fun hs => h hs hs

theorem yields_arena {f : Arena → Check β} (h : s.Valid → Yields s (f s.store.arena) R) : Yields s (arena >>= f) R :=
  fun hs => h hs hs

theorem yields_entity {f : Entity → Check β} {e : EntityId} (h : s.Valid → Yields s (f (s.store.arena.entity e)) R) :
    Yields s (entity e >>= f) R := fun hs => h hs hs

theorem yields_typeText {f : String → Check β} {t : TypeId} (h : ∀ text, Yields s (f text) R) :
    Yields s (typeText t >>= f) R := by
  have heq : (typeText t >>= f) = arena >>= fun a => f (a.typeText t) := rfl
  rw [heq]
  exact yields_arena fun _ => h _

/-- A single elementary change. -/
theorem yields_of_ok {a : α} {t : Pass} (hrun : x s = .ok a t) (h : s.Valid → s.Leads t) (hQ : s.Leads t → Q a t) :
    Yields s x Q := by
  intro hs
  rw [after_of_ok hrun]
  refine ⟨h hs, fun b u hrun' => ?_⟩
  rw [hrun] at hrun'
  cases hrun'
  exact hQ (h hs)

end Check

end Statics
